import NatsServer.Lib.Utf8
import NatsServer.Lib.Stdlib

/-!
# The configuration lexer

`lex.go` as a state machine: each state function reads the lexer, moves it and returns the next
state, `none` where Go returns nil. `lexSkip` returns a closure, which is the state `skip`. The
stack of states is a list whose head is the top. Items go to a queue; `nextItem` takes the
first one, or runs states until there is one. Every state emits one item at most and `nextItem`
runs one only when the queue is empty, so Go's channel of ten never fills.

Runes are read with `utf8.DecodeRune`, and `eof` is the rune 0, which a NUL byte also decodes
to. A runtime panic of the source (a slice out of range, a position backed up below 0) sets
`panicked`, which `nextItem` reports after the state that panicked; the bytes it then works on
are not read. Error texts are the bytes `errorf` formats, with `%v` of a rune as `escapeSpecial`
writes it and `%q` of such a string in double quotes.
-/

namespace NatsServer.Conf

open NatsServer.Lib

inductive ItemType
  | itemError
  | itemNIL
  | itemEOF
  | itemKey
  | itemText
  | itemString
  | itemBool
  | itemInteger
  | itemFloat
  | itemDatetime
  | itemArrayStart
  | itemArrayEnd
  | itemMapStart
  | itemMapEnd
  | itemCommentStart
  | itemVariable
  | itemInclude
  deriving DecidableEq, Repr

structure Item where
  typ : ItemType
  val : List UInt8
  line : Int
  pos : Int
  deriving DecidableEq, Repr

def eof : Nat := 0
def mapStart : Nat := 0x7B
def mapEnd : Nat := 0x7D
def keySepEqual : Nat := 0x3D
def keySepColon : Nat := 0x3A
def arrayStart : Nat := 0x5B
def arrayEnd : Nat := 0x5D
def arrayValTerm : Nat := 0x2C
def mapValTerm : Nat := 0x2C
def commentHashStart : Nat := 0x23
def commentSlashStart : Nat := 0x2F
def dqStringStart : Nat := 0x22
def dqStringEnd : Nat := 0x22
def sqStringStart : Nat := 0x27
def sqStringEnd : Nat := 0x27
def optValTerm : Nat := 0x3B
def topOptStart : Nat := 0x7B
def topOptValTerm : Nat := 0x2C
def topOptTerm : Nat := 0x7D
def blockStart : Nat := 0x28
def blockEnd : Nat := 0x29
def mapEndString : List UInt8 := [0x7D]

def isNumberSuffix (r : Nat) : Bool :=
  r = 'k'.toNat || r = 'K'.toNat || r = 'm'.toNat || r = 'M'.toNat || r = 'g'.toNat ||
    r = 'G'.toNat || r = 't'.toNat || r = 'T'.toNat || r = 'p'.toNat || r = 'P'.toNat ||
    r = 'e'.toNat || r = 'E'.toNat

def isKeySeparator (r : Nat) : Bool := r = keySepEqual || r = keySepColon

def isWhitespace (r : Nat) : Bool := r = '\t'.toNat || r = ' '.toNat

def isNL (r : Nat) : Bool := r = '\n'.toNat || r = '\r'.toNat

def txt (s : String) : List UInt8 := s.toUTF8.toList

def escapeSpecial (c : Nat) : List UInt8 := if c = '\n'.toNat then txt "\\n" else utf8.EncodeRune c

def noStatesToPop : List UInt8 := txt "BUG in lexer: no states to pop."

inductive StateFn
  | lexTop
  | lexTopValueEnd
  | lexBlockStart
  | lexBlockValueEnd
  | lexBlockEnd
  | lexKeyStart
  | lexDubQuotedKey
  | lexQuotedKey
  | lexIncludeStart
  | lexIncludeQuotedString
  | lexIncludeDubQuotedString
  | lexIncludeString
  | lexInclude
  | lexKey
  | lexKeyEnd
  | lexValue
  | lexArrayValue
  | lexArrayValueEnd
  | lexArrayEnd
  | lexMapKeyStart
  | lexMapQuotedKey
  | lexMapDubQuotedKey
  | lexMapKey
  | lexMapKeyEnd
  | lexMapValue
  | lexMapValueEnd
  | lexMapEnd
  | lexQuotedString
  | lexDubQuotedString
  | lexString
  | lexBlock
  | lexStringEscape
  | lexStringBinary
  | lexNumberOrDateOrStringOrIPStart
  | lexNumberOrDateOrStringOrIP
  | lexConvenientNumber
  | lexDateAfterYear
  | lexNegNumberStart
  | lexNegNumber
  | lexFloatStart
  | lexFloat
  | lexIPAddr
  | lexCommentStart
  | lexComment
  | skip (nextState : StateFn)
  deriving DecidableEq, Repr

structure Lexer where
  input : List UInt8
  start : Nat
  pos : Nat
  width : Nat
  line : Int
  state : Option StateFn
  items : List Item
  stack : List StateFn
  stringParts : List (List UInt8)
  stringStateFn : Option StateFn
  lstart : Nat
  ilstart : Nat
  panicked : Bool

def lex (input : List UInt8) : Lexer :=
  { input, start := 0, pos := 0, width := 0, line := 1, state := some .lexTop, items := [],
    stack := [], stringParts := [], stringStateFn := none, lstart := 0, ilstart := 0,
    panicked := false }

def slice (s : List UInt8) (lo hi : Nat) : List UInt8 := (s.drop lo).take (hi - lo)

namespace Lexer

variable (lx : Lexer)

def inRange (lo hi : Nat) : Lexer :=
  if lo ≤ hi ∧ hi ≤ lx.input.length then lx else { lx with panicked := true }

def push (s : StateFn) : Lexer := { lx with stack := s :: lx.stack }

def errorf (msg : List UInt8) : Lexer × Option StateFn :=
  ({ lx with items := lx.items ++ [⟨.itemError, msg, lx.line, (lx.pos : Int) - lx.lstart⟩] }, none)

def pop : Lexer × Option StateFn :=
  match lx.stack with
  | [] => lx.errorf noStatesToPop
  | last :: rest => ({ lx with stack := rest }, some last)

def emit (typ : ItemType) : Lexer :=
  let lx := lx.inRange lx.start lx.pos
  let val := lx.stringParts.flatten ++ slice lx.input lx.start lx.pos
  { lx with items := lx.items ++ [⟨typ, val, lx.line, (lx.pos : Int) - lx.ilstart - val.length⟩],
            start := lx.pos, ilstart := lx.lstart }

def emitString : Lexer := { lx.emit .itemString with stringParts := [] }

def addCurrentStringPart (offset : Nat) : Lexer :=
  let lx := if offset ≤ lx.pos then lx.inRange lx.start (lx.pos - offset) else { lx with panicked := true }
  { lx with stringParts := lx.stringParts ++ [slice lx.input lx.start (lx.pos - offset)], start := lx.pos }

def addStringPart (s : List UInt8) : Lexer × Option StateFn :=
  ({ lx with stringParts := lx.stringParts ++ [s], start := lx.pos }, lx.stringStateFn)

def hasEscapedParts : Bool := lx.stringParts ≠ []

def rune : Nat :=
  if lx.pos < lx.input.length then (utf8.DecodeRune (lx.input.drop lx.pos)).1 else eof

def advance : Lexer :=
  if lx.pos < lx.input.length then
    let w := (utf8.DecodeRune (lx.input.drop lx.pos)).2
    let nl := lx.input[lx.pos]? = some 0x0A
    { lx with line := if nl then lx.line + 1 else lx.line, lstart := if nl then lx.pos else lx.lstart,
              width := w, pos := lx.pos + w }
  else { lx with width := 0 }

def next : Nat × Lexer := (lx.rune, lx.advance)

def ignore : Lexer := { lx with start := lx.pos, ilstart := lx.lstart }

def backup : Lexer :=
  if lx.width ≤ lx.pos then
    let pos := lx.pos - lx.width
    { lx with pos, line := if lx.input[pos]? = some 0x0A then lx.line - 1 else lx.line }
  else { lx with panicked := true }

def peek : Nat × Lexer := (lx.rune, lx.advance.backup)

/-- The end of input of lexTop, lexBlockStart and the quoted keys and strings: past pending
input it is an error, else itemEOF. -/
def endOfInput : Lexer × Option StateFn :=
  if lx.pos > lx.start then lx.errorf (txt "Unexpected EOF.") else (lx.emit .itemEOF, none)

def isVariable : Bool × Lexer :=
  if lx.start ≥ lx.input.length then (false, lx)
  else if lx.input[lx.start]? = some 0x24 then (true, { lx with start := lx.start + 1 })
  else (false, lx)

end Lexer

def lexSkip (lx : Lexer) (nextState : StateFn) : Lexer × Option StateFn := (lx, some (.skip nextState))

section States

variable (uc : unicode.Tables)

def Lexer.isBool (lx : Lexer) : Bool :=
  let str := strings.ToLower uc (slice lx.input lx.start lx.pos)
  str = txt "true" || str = txt "false" || str = txt "on" || str = txt "off" || str = txt "yes" ||
    str = txt "no"

def Lexer.keyCheckKeyword (lx : Lexer) (fallThrough : StateFn) (push : Option StateFn) :
    Lexer × Option StateFn :=
  let key := strings.ToLower uc (slice lx.input lx.start lx.pos)
  let lx := lx.inRange lx.start lx.pos
  if key = txt "include" then
    let lx := lx.ignore
    let lx := match push with
      | some s => lx.push s
      | none => lx
    (lx, some .lexIncludeStart)
  else (lx.emit .itemKey, some fallThrough)

def lexTop (lx : Lexer) : Lexer × Option StateFn :=
  let (r, lx) := lx.next
  if unicode.IsSpace r then lexSkip lx .lexTop
  else if r = topOptStart then lexSkip (lx.push .lexTop) .lexBlockStart
  else if r = commentHashStart then (lx.push .lexTop, some .lexCommentStart)
  else if r = commentSlashStart then
    let (rn, lx) := lx.next
    if rn = commentSlashStart then (lx.push .lexTop, some .lexCommentStart)
    -- the fallthrough into the eof case
    else lx.backup.endOfInput
  else if r = eof then lx.endOfInput
  else (lx.backup.push .lexTopValueEnd, some .lexKeyStart)

def lexTopValueEnd (lx : Lexer) : Lexer × Option StateFn :=
  let (r, lx) := lx.next
  if r = commentHashStart then (lx.push .lexTop, some .lexCommentStart)
  else if r = commentSlashStart then
    let (rn, lx) := lx.next
    if rn = commentSlashStart then (lx.push .lexTop, some .lexCommentStart)
    -- the fallthrough into the whitespace case
    else (lx.backup, some .lexTopValueEnd)
  else if isWhitespace r then (lx, some .lexTopValueEnd)
  else if isNL r || r = eof || r = optValTerm || r = topOptValTerm || r = topOptTerm then
    (lx.ignore, some .lexTop)
  else lx.errorf (txt "Expected a top-level value to end with a new line, comment or EOF, but got '" ++
    escapeSpecial r ++ txt "' instead.")

def lexBlockStart (lx : Lexer) : Lexer × Option StateFn :=
  let (r, lx) := lx.next
  if unicode.IsSpace r then lexSkip lx .lexBlockStart
  else if r = topOptStart then lexSkip (lx.push .lexBlockEnd) .lexBlockStart
  else if r = topOptTerm then lx.ignore.pop
  else if r = commentHashStart then (lx.push .lexBlockStart, some .lexCommentStart)
  else if r = commentSlashStart then
    let (rn, lx) := lx.next
    if rn = commentSlashStart then (lx.push .lexBlockStart, some .lexCommentStart)
    else lx.backup.endOfInput
  else if r = eof then lx.endOfInput
  else (lx.backup.push .lexBlockValueEnd, some .lexKeyStart)

def lexBlockValueEnd (lx : Lexer) : Lexer × Option StateFn :=
  let (r, lx) := lx.next
  if r = commentHashStart then (lx.push .lexBlockValueEnd, some .lexCommentStart)
  else if r = commentSlashStart then
    let (rn, lx) := lx.next
    if rn = commentSlashStart then (lx.push .lexBlockValueEnd, some .lexCommentStart)
    else (lx.backup, some .lexBlockValueEnd)
  else if isWhitespace r then (lx, some .lexBlockValueEnd)
  else if isNL r || r = optValTerm || r = topOptValTerm then (lx.ignore, some .lexBlockStart)
  else if r = topOptTerm then (lx.backup, some .lexBlockEnd)
  else lx.errorf (txt "Expected a block-level value to end with a new line, comment or EOF, but got '" ++
    escapeSpecial r ++ txt "' instead.")

def lexBlockEnd (lx : Lexer) : Lexer × Option StateFn :=
  let (r, lx) := lx.next
  if r = commentHashStart then (lx.push .lexBlockStart, some .lexCommentStart)
  else if r = commentSlashStart then
    let (rn, lx) := lx.next
    if rn = commentSlashStart then (lx.push .lexBlockStart, some .lexCommentStart)
    -- the fallthrough into the new line and whitespace case
    else (lx.backup, some .lexBlockEnd)
  else if isNL r || isWhitespace r then (lx, some .lexBlockEnd)
  else if r = optValTerm || r = topOptValTerm then (lx.ignore, some .lexBlockStart)
  else if r = topOptTerm then lx.ignore.pop
  else lx.errorf (txt "Expected a block-level to end with a '\x7d', but got '" ++ escapeSpecial r ++
    txt "' instead.")

def lexKeyStart (lx : Lexer) : Lexer × Option StateFn :=
  let (r, lx) := lx.peek
  if isKeySeparator r then lx.errorf (txt "Unexpected key separator '" ++ escapeSpecial r ++ txt "'")
  else if unicode.IsSpace r then lexSkip lx.next.2 .lexKeyStart
  else if r = dqStringStart then lexSkip lx.next.2 .lexDubQuotedKey
  else if r = sqStringStart then lexSkip lx.next.2 .lexQuotedKey
  else (lx.ignore.next.2, some .lexKey)

def lexDubQuotedKey (lx : Lexer) : Lexer × Option StateFn :=
  let (r, lx) := lx.peek
  if r = dqStringEnd then lexSkip (lx.emit .itemKey).next.2 .lexKeyEnd
  else if r = eof then lx.endOfInput
  else (lx.next.2, some .lexDubQuotedKey)

def lexQuotedKey (lx : Lexer) : Lexer × Option StateFn :=
  let (r, lx) := lx.peek
  if r = sqStringEnd then lexSkip (lx.emit .itemKey).next.2 .lexKeyEnd
  else if r = eof then lx.endOfInput
  else (lx.next.2, some .lexQuotedKey)

def lexIncludeStart (lx : Lexer) : Lexer × Option StateFn :=
  let (r, lx) := lx.next
  if isWhitespace r then lexSkip lx .lexIncludeStart
  else (lx.backup, some .lexInclude)

def lexIncludeQuotedString (lx : Lexer) : Lexer × Option StateFn :=
  let (r, lx) := lx.next
  if r = sqStringEnd then (lx.backup.emit .itemInclude).next.2.ignore.pop
  else if r = eof then lx.errorf (txt "Unexpected EOF in quoted include")
  else (lx, some .lexIncludeQuotedString)

def lexIncludeDubQuotedString (lx : Lexer) : Lexer × Option StateFn :=
  let (r, lx) := lx.next
  if r = dqStringEnd then (lx.backup.emit .itemInclude).next.2.ignore.pop
  else if r = eof then lx.errorf (txt "Unexpected EOF in double quoted include")
  else (lx, some .lexIncludeDubQuotedString)

def lexIncludeString (lx : Lexer) : Lexer × Option StateFn :=
  let (r, lx) := lx.next
  if isNL r || r = eof || r = optValTerm || r = mapEnd || isWhitespace r then
    (lx.backup.emit .itemInclude).pop
  else if r = sqStringEnd then (lx.backup.emit .itemInclude).next.2.ignore.pop
  else (lx, some .lexIncludeString)

def lexInclude (lx : Lexer) : Lexer × Option StateFn :=
  let (r, lx) := lx.next
  if r = sqStringStart then (lx.ignore, some .lexIncludeQuotedString)
  else if r = dqStringStart then (lx.ignore, some .lexIncludeDubQuotedString)
  else if r = arrayStart then lx.errorf (txt "Expected include value but found start of an array")
  else if r = mapStart then lx.errorf (txt "Expected include value but found start of a map")
  else if r = blockStart then lx.errorf (txt "Expected include value but found start of a block")
  else if unicode.IsDigit uc r || r = '-'.toNat then
    lx.errorf (txt "Expected include value but found start of a number")
  else if r = '\\'.toNat then lx.errorf (txt "Expected include value but found escape sequence")
  else if isNL r then lx.errorf (txt "Expected include value but found new line")
  else (lx.backup, some .lexIncludeString)

def lexKey (lx : Lexer) : Lexer × Option StateFn :=
  let (r, lx) := lx.peek
  -- a space may end the keyword include
  if unicode.IsSpace r then lx.keyCheckKeyword uc .lexKeyEnd none
  else if isKeySeparator r || r = eof then (lx.emit .itemKey, some .lexKeyEnd)
  else (lx.next.2, some .lexKey)

def lexKeyEnd (lx : Lexer) : Lexer × Option StateFn :=
  let (r, lx) := lx.next
  if unicode.IsSpace r then lexSkip lx .lexKeyEnd
  else if isKeySeparator r then lexSkip lx .lexValue
  else if r = eof then (lx.emit .itemEOF, none)
  else (lx.backup, some .lexValue)

def lexValue (lx : Lexer) : Lexer × Option StateFn :=
  let (r, lx) := lx.next
  if isWhitespace r then lexSkip lx .lexValue
  else if r = arrayStart then (lx.ignore.emit .itemArrayStart, some .lexArrayValue)
  else if r = mapStart then (lx.ignore.emit .itemMapStart, some .lexMapKeyStart)
  else if r = sqStringStart then (lx.ignore, some .lexQuotedString)
  else if r = dqStringStart then
    ({ lx.ignore with stringStateFn := some .lexDubQuotedString }, some .lexDubQuotedString)
  else if r = '-'.toNat then (lx, some .lexNegNumberStart)
  else if r = blockStart then (lx.ignore, some .lexBlock)
  else if unicode.IsDigit uc r then (lx.backup, some .lexNumberOrDateOrStringOrIPStart)
  else if r = '.'.toNat then lx.errorf (txt "Floats must start with a digit")
  else if isNL r then lx.errorf (txt "Expected value but found new line")
  else ({ lx.backup with stringStateFn := some .lexString }, some .lexString)

def unexpectedArrayValTerm : List UInt8 :=
  txt "Unexpected array value terminator '" ++ escapeSpecial arrayValTerm ++ txt "'."

def lexArrayValue (lx : Lexer) : Lexer × Option StateFn :=
  let (r, lx) := lx.next
  if unicode.IsSpace r then lexSkip lx .lexArrayValue
  else if r = commentHashStart then (lx.push .lexArrayValue, some .lexCommentStart)
  else if r = commentSlashStart then
    let (rn, lx) := lx.next
    if rn = commentSlashStart then (lx.push .lexArrayValue, some .lexCommentStart)
    -- the fallthrough into the terminator case
    else lx.backup.errorf unexpectedArrayValTerm
  else if r = arrayValTerm then lx.errorf unexpectedArrayValTerm
  else if r = arrayEnd then (lx, some .lexArrayEnd)
  else (lx.backup.push .lexArrayValueEnd, some .lexValue)

def lexArrayValueEnd (lx : Lexer) : Lexer × Option StateFn :=
  let (r, lx) := lx.next
  if isWhitespace r then lexSkip lx .lexArrayValueEnd
  else if r = commentHashStart then (lx.push .lexArrayValueEnd, some .lexCommentStart)
  else if r = commentSlashStart then
    let (rn, lx) := lx.next
    if rn = commentSlashStart then (lx.push .lexArrayValueEnd, some .lexCommentStart)
    -- the fallthrough into the terminator case
    else lexSkip lx.backup .lexArrayValue
  else if r = arrayValTerm || isNL r then lexSkip lx .lexArrayValue
  else if r = arrayEnd then (lx, some .lexArrayEnd)
  else lx.errorf (txt "Expected an array value terminator \",\" or an array terminator \"]\", but got '" ++
    escapeSpecial r ++ txt "' instead.")

def lexArrayEnd (lx : Lexer) : Lexer × Option StateFn := (lx.ignore.emit .itemArrayEnd).pop

def lexMapKeyStart (lx : Lexer) : Lexer × Option StateFn :=
  let (r, lx) := lx.peek
  if isKeySeparator r then lx.errorf (txt "Unexpected key separator '" ++ escapeSpecial r ++ txt "'.")
  else if r = arrayEnd then
    lx.errorf (txt "Unexpected array end '" ++ escapeSpecial r ++ txt "' processing map.")
  else if unicode.IsSpace r then lexSkip lx.next.2 .lexMapKeyStart
  else if r = mapEnd then lexSkip lx.next.2 .lexMapEnd
  else if r = commentHashStart then (lx.next.2.push .lexMapKeyStart, some .lexCommentStart)
  else if r = commentSlashStart then
    let (rn, lx) := lx.next.2.next
    if rn = commentSlashStart then (lx.push .lexMapKeyStart, some .lexCommentStart)
    -- leaves the switch for a key from the rune after the slash
    else (lx.backup.ignore.next.2, some .lexMapKey)
  else if r = sqStringStart then lexSkip lx.next.2 .lexMapQuotedKey
  else if r = dqStringStart then lexSkip lx.next.2 .lexMapDubQuotedKey
  else if r = eof then lx.errorf (txt "Unexpected EOF processing map.")
  else (lx.ignore.next.2, some .lexMapKey)

def lexMapQuotedKey (lx : Lexer) : Lexer × Option StateFn :=
  let (r, lx) := lx.peek
  if r = eof then lx.errorf (txt "Unexpected EOF processing quoted map key.")
  else if r = sqStringEnd then lexSkip (lx.emit .itemKey).next.2 .lexMapKeyEnd
  else (lx.next.2, some .lexMapQuotedKey)

def lexMapDubQuotedKey (lx : Lexer) : Lexer × Option StateFn :=
  let (r, lx) := lx.peek
  if r = eof then lx.errorf (txt "Unexpected EOF processing double quoted map key.")
  else if r = dqStringEnd then lexSkip (lx.emit .itemKey).next.2 .lexMapKeyEnd
  else (lx.next.2, some .lexMapDubQuotedKey)

def lexMapKey (lx : Lexer) : Lexer × Option StateFn :=
  let (r, lx) := lx.peek
  if r = eof then lx.errorf (txt "Unexpected EOF processing map key.")
  else if unicode.IsSpace r then lx.keyCheckKeyword uc .lexMapKeyEnd (some .lexMapValueEnd)
  else if isKeySeparator r then (lx.emit .itemKey, some .lexMapKeyEnd)
  else (lx.next.2, some .lexMapKey)

def lexMapKeyEnd (lx : Lexer) : Lexer × Option StateFn :=
  let (r, lx) := lx.next
  if unicode.IsSpace r then lexSkip lx .lexMapKeyEnd
  else if isKeySeparator r then lexSkip lx .lexMapValue
  else (lx.backup, some .lexMapValue)

def lexMapValue (lx : Lexer) : Lexer × Option StateFn :=
  let (r, lx) := lx.next
  if unicode.IsSpace r then lexSkip lx .lexMapValue
  else if r = mapValTerm then lx.errorf (txt "Unexpected map value terminator \",\".")
  else if r = mapEnd then lexSkip lx .lexMapEnd
  else (lx.backup.push .lexMapValueEnd, some .lexValue)

def lexMapValueEnd (lx : Lexer) : Lexer × Option StateFn :=
  let (r, lx) := lx.next
  if isWhitespace r then lexSkip lx .lexMapValueEnd
  else if r = commentHashStart then (lx.push .lexMapValueEnd, some .lexCommentStart)
  else if r = commentSlashStart then
    let (rn, lx) := lx.next
    if rn = commentSlashStart then (lx.push .lexMapValueEnd, some .lexCommentStart)
    -- the fallthrough into the terminator case
    else lexSkip lx.backup .lexMapKeyStart
  else if r = optValTerm || r = mapValTerm || isNL r then lexSkip lx .lexMapKeyStart
  else if r = mapEnd then lexSkip lx .lexMapEnd
  else lx.errorf (txt "Expected a map value terminator \",\" or a map terminator \"\x7d\", but got '" ++
    escapeSpecial r ++ txt "' instead.")

def lexMapEnd (lx : Lexer) : Lexer × Option StateFn := (lx.ignore.emit .itemMapEnd).pop

def lexQuotedString (lx : Lexer) : Lexer × Option StateFn :=
  let (r, lx) := lx.next
  if r = sqStringEnd then (lx.backup.emit .itemString).next.2.ignore.pop
  else if r = eof then lx.endOfInput
  else (lx, some .lexQuotedString)

def lexDubQuotedString (lx : Lexer) : Lexer × Option StateFn :=
  let (r, lx) := lx.next
  if r = '\\'.toNat then (lx.addCurrentStringPart 1, some .lexStringEscape)
  else if r = dqStringEnd then lx.backup.emitString.next.2.ignore.pop
  else if r = eof then lx.endOfInput
  else (lx, some .lexDubQuotedString)

def lexString (lx : Lexer) : Lexer × Option StateFn :=
  let (r, lx) := lx.next
  if r = '\\'.toNat then (lx.addCurrentStringPart 1, some .lexStringEscape)
  else if isNL r || r = eof || r = optValTerm || r = arrayValTerm || r = arrayEnd || r = mapEnd ||
      isWhitespace r then
    let lx := lx.backup
    if lx.hasEscapedParts then lx.emitString.pop
    else if lx.isBool uc then (lx.emit .itemBool).pop
    else
      let (v, lx) := lx.isVariable
      if v then (lx.emit .itemVariable).pop else lx.emitString.pop
  else if r = sqStringEnd then lx.backup.emitString.next.2.ignore.pop
  else (lx, some .lexString)

def lexBlock (lx : Lexer) : Lexer × Option StateFn :=
  let (r, lx) := lx.next
  if r = blockEnd then
    -- a ')' ends the block only alone on its line
    let (c, lx) := lx.backup.backup.next
    if c ≠ '\n'.toNat then (lx.next.2, some .lexBlock)
    else
      let (c, lx) := lx.next.2.next
      if c = '\n'.toNat || c = eof then (lx.backup.backup.emit .itemString).next.2.ignore.pop
      else (lx.backup, some .lexBlock)
  else if r = eof then lx.errorf (txt "Unexpected EOF processing block.")
  else (lx, some .lexBlock)

def lexStringEscape (lx : Lexer) : Lexer × Option StateFn :=
  let (r, lx) := lx.next
  if r = 'x'.toNat then (lx, some .lexStringBinary)
  else if r = 't'.toNat then lx.addStringPart (txt "\t")
  else if r = 'n'.toNat then lx.addStringPart (txt "\n")
  else if r = 'r'.toNat then lx.addStringPart (txt "\r")
  else if r = '"'.toNat then lx.addStringPart (txt "\"")
  else if r = '\\'.toNat then lx.addStringPart (txt "\\")
  else lx.errorf (txt "Invalid escape character '" ++ escapeSpecial r ++
    txt "'. Only the following escape characters are allowed: \\xXX, \\t, \\n, \\r, \\\", \\\\.")

def lexStringBinary (lx : Lexer) : Lexer × Option StateFn :=
  let (r, lx) := lx.next
  if isNL r then lx.errorf (txt "Expected two hexadecimal digits after '\\x', but hit end of line")
  else
    let (r, lx) := lx.next
    if isNL r then lx.errorf (txt "Expected two hexadecimal digits after '\\x', but hit end of line")
    else
      -- offset := lx.pos - 2, and a slice from below 0 panics
      let lx := if 2 ≤ lx.pos then lx.inRange (lx.pos - 2) lx.pos else { lx with panicked := true }
      let bytes := slice lx.input (lx.pos - 2) lx.pos
      match hex.DecodeString bytes with
      | none => lx.errorf (txt "Expected two hexadecimal digits after '\\x', but got '" ++ bytes ++
          txt "'")
      | some b => lx.addStringPart b

def lexNumberOrDateOrStringOrIPStart (lx : Lexer) : Lexer × Option StateFn :=
  let (r, lx) := lx.next
  if !unicode.IsDigit uc r then
    if r = '.'.toNat then lx.errorf (txt "Floats must start with a digit, not '.'.")
    else lx.errorf (txt "Expected a digit but got '" ++ escapeSpecial r ++ txt "'.")
  else (lx, some .lexNumberOrDateOrStringOrIP)

def lexNumberOrDateOrStringOrIP (lx : Lexer) : Lexer × Option StateFn :=
  let (r, lx) := lx.next
  if r = '-'.toNat then
    if lx.pos - lx.start ≠ 5 then lx.errorf (txt "All ISO8601 dates must be in full Zulu form.")
    else (lx, some .lexDateAfterYear)
  else if unicode.IsDigit uc r then (lx, some .lexNumberOrDateOrStringOrIP)
  else if r = '.'.toNat then (lx, some .lexFloatStart)
  else if isNumberSuffix r then (lx, some .lexConvenientNumber)
  else if !(isNL r || r = eof || r = mapEnd || r = optValTerm || r = mapValTerm || isWhitespace r ||
      unicode.IsDigit uc r) then
    -- a string that starts with a number
    ({ lx with stringStateFn := some .lexString }, some .lexString)
  else (lx.backup.emit .itemInteger).pop

def lexConvenientNumber (lx : Lexer) : Lexer × Option StateFn :=
  let (r, lx) := lx.next
  if r = 'b'.toNat || r = 'B'.toNat || r = 'i'.toNat || r = 'I'.toNat then
    (lx, some .lexConvenientNumber)
  else
    let lx := lx.backup
    if isNL r || r = eof || r = mapEnd || r = optValTerm || r = mapValTerm || isWhitespace r ||
        unicode.IsDigit uc r then (lx.emit .itemInteger).pop
    else ({ lx with stringStateFn := some .lexString }, some .lexString)

def dateFormat : List Nat :=
  ['0', '0', '-', '0', '0', 'T', '0', '0', ':', '0', '0', ':', '0', '0', 'Z'].map Char.toNat

def lexDateAfterYearLoop : List Nat → Lexer → Lexer × Option StateFn
  | [], lx => (lx.emit .itemDatetime).pop
  | f :: fs, lx =>
    let (r, lx) := lx.next
    if f = '0'.toNat then
      if !unicode.IsDigit uc r then
        lx.errorf (txt "Expected digit in ISO8601 datetime, but found '" ++ escapeSpecial r ++
          txt "' instead.")
      else lexDateAfterYearLoop fs lx
    else if f ≠ r then
      lx.errorf (txt "Expected '" ++ escapeSpecial f ++ txt "' in ISO8601 datetime, but found '" ++
        escapeSpecial r ++ txt "' instead.")
    else lexDateAfterYearLoop fs lx

def lexDateAfterYear (lx : Lexer) : Lexer × Option StateFn := lexDateAfterYearLoop uc dateFormat lx

def lexNegNumberStart (lx : Lexer) : Lexer × Option StateFn :=
  let (r, lx) := lx.next
  if !unicode.IsDigit uc r then
    if r = '.'.toNat then lx.errorf (txt "Floats must start with a digit, not '.'.")
    else lx.errorf (txt "Expected a digit but got '" ++ escapeSpecial r ++ txt "'.")
  else (lx, some .lexNegNumber)

def lexNegNumber (lx : Lexer) : Lexer × Option StateFn :=
  let (r, lx) := lx.next
  if unicode.IsDigit uc r then (lx, some .lexNegNumber)
  else if r = '.'.toNat then (lx, some .lexFloatStart)
  else if isNumberSuffix r then (lx, some .lexConvenientNumber)
  else (lx.backup.emit .itemInteger).pop

def lexFloatStart (lx : Lexer) : Lexer × Option StateFn :=
  let (r, lx) := lx.next
  if !unicode.IsDigit uc r then
    lx.errorf (txt "Floats must have a digit after the '.', but got '" ++ escapeSpecial r ++
      txt "' instead.")
  else (lx, some .lexFloat)

def lexFloat (lx : Lexer) : Lexer × Option StateFn :=
  let (r, lx) := lx.next
  if unicode.IsDigit uc r then (lx, some .lexFloat)
  -- another '.' makes it an IP address
  else if r = '.'.toNat then (lx, some .lexIPAddr)
  else (lx.backup.emit .itemFloat).pop

def lexIPAddr (lx : Lexer) : Lexer × Option StateFn :=
  let (r, lx) := lx.next
  if unicode.IsDigit uc r || r = '.'.toNat || r = ':'.toNat || r = '-'.toNat then
    (lx, some .lexIPAddr)
  else (lx.backup.emit .itemString).pop

def lexCommentStart (lx : Lexer) : Lexer × Option StateFn :=
  (lx.ignore.emit .itemCommentStart, some .lexComment)

def lexComment (lx : Lexer) : Lexer × Option StateFn :=
  let (r, lx) := lx.peek
  if isNL r || r = eof then (lx.emit .itemText).pop
  else (lx.next.2, some .lexComment)

def runState : StateFn → Lexer → Lexer × Option StateFn
  | .lexTop => lexTop
  | .lexTopValueEnd => lexTopValueEnd
  | .lexBlockStart => lexBlockStart
  | .lexBlockValueEnd => lexBlockValueEnd
  | .lexBlockEnd => lexBlockEnd
  | .lexKeyStart => lexKeyStart
  | .lexDubQuotedKey => lexDubQuotedKey
  | .lexQuotedKey => lexQuotedKey
  | .lexIncludeStart => lexIncludeStart
  | .lexIncludeQuotedString => lexIncludeQuotedString
  | .lexIncludeDubQuotedString => lexIncludeDubQuotedString
  | .lexIncludeString => lexIncludeString
  | .lexInclude => lexInclude uc
  | .lexKey => lexKey uc
  | .lexKeyEnd => lexKeyEnd
  | .lexValue => lexValue uc
  | .lexArrayValue => lexArrayValue
  | .lexArrayValueEnd => lexArrayValueEnd
  | .lexArrayEnd => lexArrayEnd
  | .lexMapKeyStart => lexMapKeyStart
  | .lexMapQuotedKey => lexMapQuotedKey
  | .lexMapDubQuotedKey => lexMapDubQuotedKey
  | .lexMapKey => lexMapKey uc
  | .lexMapKeyEnd => lexMapKeyEnd
  | .lexMapValue => lexMapValue
  | .lexMapValueEnd => lexMapValueEnd
  | .lexMapEnd => lexMapEnd
  | .lexQuotedString => lexQuotedString
  | .lexDubQuotedString => lexDubQuotedString
  | .lexString => lexString uc
  | .lexBlock => lexBlock
  | .lexStringEscape => lexStringEscape
  | .lexStringBinary => lexStringBinary
  | .lexNumberOrDateOrStringOrIPStart => lexNumberOrDateOrStringOrIPStart uc
  | .lexNumberOrDateOrStringOrIP => lexNumberOrDateOrStringOrIP uc
  | .lexConvenientNumber => lexConvenientNumber uc
  | .lexDateAfterYear => lexDateAfterYear uc
  | .lexNegNumberStart => lexNegNumberStart uc
  | .lexNegNumber => lexNegNumber uc
  | .lexFloatStart => lexFloatStart uc
  | .lexFloat => lexFloat uc
  | .lexIPAddr => lexIPAddr uc
  | .lexCommentStart => lexCommentStart
  | .lexComment => lexComment
  | .skip nextState => fun lx => (lx.ignore, some nextState)

/-- How a run stops short of a value: an error Go returns, a runtime panic, or the fuel that
bounds a loop of the model ran out. -/
inductive Err
  | error (msg : List UInt8)
  | panic (msg : List UInt8)
  | outOfFuel
  deriving DecidableEq, Repr

def runtimeError : List UInt8 := txt "runtime error"

/-- nextItem: the first item of the queue, after running states until there is one; `fuel`
bounds the states run. Calling the nil state Go returns at an error or at the end panics. -/
def Lexer.nextItem : Nat → Lexer → Except Err (Item × Lexer)
  | fuel, lx =>
    match lx.items with
    | it :: rest => .ok (it, { lx with items := rest })
    | [] =>
      match fuel, lx.state with
      | 0, _ => .error .outOfFuel
      | _ + 1, none => .error (.panic runtimeError)
      | n + 1, some s =>
        let (lx, next) := runState uc s lx
        if lx.panicked then .error (.panic runtimeError)
        else Lexer.nextItem n { lx with state := next }

end States

end NatsServer.Conf
