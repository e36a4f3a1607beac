import NatsServer.Conf.Lex
import NatsServer.Lib.Assoc

/-!
# The configuration parser

`parse.go`: the parser pulls items from the lexer and builds maps and arrays on a stack of
contexts whose head is the top and whose bottom is the mapping `Parse` returns. Keys wait on a
stack of their own until a value is set in a map; pedantic mode keeps them as items too, wraps
every value in a token and moves its position to its key's.

A Go map is an association list, and a value read through a variable is shared only with
contexts that are done, so values are kept as plain data; marking a looked-up token as used is
the one write through a pointer, and it is made to the map that holds it. The environment is a
finite map of names to strings. `envVarReferences` is the list `refs` passed down to the parser
of a variable's value, which the deferred delete makes a stack. An include calls
`parseFile`, which stands for ParseFile of the file the directive names next to `fp` (ParseFileWithChecks in
pedantic mode). `fuel` bounds the loop of each parser, each nextItem it calls and how deep the
variables nest.
-/

namespace NatsServer.Conf

open NatsServer.Lib

/-- A value of a configuration: Go's string, bool, int64, float64 (the decimal it was read
from), time.Time, []any and map[string]any, and pedantic mode's *token. -/
inductive Value
  | str (s : List UInt8)
  | bool (b : Bool)
  | int (n : Int64)
  | float (x : strconv.Decimal)
  | datetime (t : time.DateTime)
  | array (vs : List Value)
  | map (m : List (List UInt8 × Value))
  | token (item : Item) (value : Value) (usedVariable : Bool) (sourceFile : List UInt8)

inductive Ctx
  | map (m : List (List UInt8 × Value))
  | array (vs : List Value)

def Ctx.value : Ctx → Value
  | .map m => .map m
  | .array vs => .array vs

structure Parser where
  lx : Lexer
  ctxs : List Ctx
  keys : List (List UInt8)
  ikeys : List Item
  fp : List UInt8
  pedantic : Bool

def newParser (data fp : List UInt8) (pedantic : Bool) : Parser :=
  { lx := lex data, ctxs := [], keys := [], ikeys := [], fp, pedantic }

def Parser.mapping (p : Parser) : List (List UInt8 × Value) :=
  match p.ctxs.getLast? with
  | some (.map m) => m
  | _ => []

def fmtInt (n : Int) : List UInt8 := txt (toString n)

namespace Parser

variable (p : Parser)

def pushContext (ctx : Ctx) : Parser := { p with ctxs := ctx :: p.ctxs }

def popContext : Except Err (Parser × Ctx) :=
  match p.ctxs with
  | [] => .error (.panic (txt "BUG in parser, context stack empty"))
  | [_] => .error (.panic (txt "runtime error: index out of range [-1]"))
  | last :: rest => .ok ({ p with ctxs := rest }, last)

def pushKey (key : List UInt8) : Parser := { p with keys := key :: p.keys }

def popKey : Except Err (Parser × List UInt8) :=
  match p.keys with
  | [] => .error (.panic (txt "BUG in parser, keys stack empty"))
  | last :: rest => .ok ({ p with keys := rest }, last)

def pushItemKey (key : Item) : Parser := { p with ikeys := key :: p.ikeys }

def popItemKey : Except Err (Parser × Item) :=
  match p.ikeys with
  | [] => .error (.panic (txt "BUG in parser, item keys stack empty"))
  | last :: rest => .ok ({ p with ikeys := rest }, last)

/-- setValue: appended in an array; in a map, under the key on top of the keys, and in
pedantic mode only a token, moved to its key's position. -/
def setValue (val : Value) : Except Err Parser :=
  match p.ctxs with
  | .array vs :: rest => .ok { p with ctxs := .array (vs ++ [val]) :: rest }
  | .map m :: rest => do
    let (p, key) ← p.popKey
    if p.pedantic then
      match val with
      | .token it v used file =>
        let (p, ik) ← p.popItemKey
        .ok { p with ctxs := .map (Assoc.set key (.token { it with pos := ik.pos, line := ik.line } v
          used file) m) :: rest }
      | _ => .ok p
    else .ok { p with ctxs := .map (Assoc.set key val m) :: rest }
  | [] => .ok p

end Parser

section Parse

variable (uc : unicode.Tables) (env : List (List UInt8 × List UInt8))
  (parseFile : Bool → List UInt8 → List UInt8 → Except Err (List (List UInt8 × Value)))

def pkey : List UInt8 := txt "pk"
def bcryptPrefix : List UInt8 := txt "2a$"

def lookupEnv (name : List UInt8) : Option (List UInt8) :=
  if name = [] then none else Assoc.find name env

def findInCtxs (name : List UInt8) : Nat → List Ctx → Option (Value × Nat)
  | _, [] => none
  | i, .map m :: cs =>
    match Assoc.find name m with
    | some v => some (v, i)
    | none => findInCtxs name (i + 1) cs
  | i, .array _ :: cs => findInCtxs name (i + 1) cs

/-- lookupVariable: the value and, when a context holds it, that context's depth. A name found
in none of them is a reference into the environment, parsed as the value of `pk` by `nested`
with the name added to the references. -/
def Parser.lookupVariable (nested : List (List UInt8) → List UInt8 → Except Err Parser)
    (refs : List (List UInt8)) (p : Parser) (varReference : List UInt8) :
    Except Err (Option (Value × Option Nat)) :=
  if bcryptPrefix.isPrefixOf varReference then .ok (some (.str (0x24 :: varReference), none))
  else match findInCtxs varReference 0 p.ctxs with
    | some (v, i) => .ok (some (v, some i))
    | none =>
      if varReference ∈ refs then
        .error (.error (txt "variable reference cycle for '" ++ varReference ++ txt "'"))
      else match lookupEnv env varReference with
        | some vStr => do
          let subp ← nested (varReference :: refs) (pkey ++ txt "=" ++ vStr)
          .ok ((Assoc.find pkey subp.mapping).map fun v => (v, none))
        | none => .ok none

def markUsed (key : List UInt8) : Nat → List Ctx → List Ctx
  | 0, .map m :: cs =>
    match Assoc.find key m with
    | some (.token it v _ file) => .map (Assoc.set key (.token it v true file) m) :: cs
    | _ => .map m :: cs
  | i + 1, c :: cs => c :: markUsed key i cs
  | _, cs => cs

/-- The integer case of processItem: the leading runes that are digits or '-' are the number,
the rest is the suffix. The value it sets, none when the suffix matches no case, or its error. -/
def integerValue (val : List UInt8) : Except Err (Option Int64) :=
  let lastDigit := ((utf8.runes val).takeWhile fun r => unicode.IsDigit uc r.1 || r.1 = '-'.toNat).length
  let numStr := val.take lastDigit
  match strconv.ParseInt numStr with
  | .error .ErrRange => .error (.error (txt "integer '" ++ val ++ txt "' is out of the range"))
  | .error .ErrSyntax => .error (.error (txt "expected integer, but got '" ++ val ++ txt "'"))
  | .ok num =>
    let suffix := strings.ToLower uc (strings.TrimSpace (val.drop lastDigit))
    if suffix = txt "" then .ok (some num)
    else if suffix = txt "k" then .ok (some (num * 1000))
    else if suffix = txt "kb" ∨ suffix = txt "ki" ∨ suffix = txt "kib" then .ok (some (num * 1024))
    else if suffix = txt "m" then .ok (some (num * 1000 * 1000))
    else if suffix = txt "mb" ∨ suffix = txt "mi" ∨ suffix = txt "mib" then
      .ok (some (num * 1024 * 1024))
    else if suffix = txt "g" then .ok (some (num * 1000 * 1000 * 1000))
    else if suffix = txt "gb" ∨ suffix = txt "gi" ∨ suffix = txt "gib" then
      .ok (some (num * 1024 * 1024 * 1024))
    else if suffix = txt "t" then .ok (some (num * 1000 * 1000 * 1000 * 1000))
    else if suffix = txt "tb" ∨ suffix = txt "ti" ∨ suffix = txt "tib" then
      .ok (some (num * 1024 * 1024 * 1024 * 1024))
    else if suffix = txt "p" then .ok (some (num * 1000 * 1000 * 1000 * 1000 * 1000))
    else if suffix = txt "pb" ∨ suffix = txt "pi" ∨ suffix = txt "pib" then
      .ok (some (num * 1024 * 1024 * 1024 * 1024 * 1024))
    else if suffix = txt "e" then .ok (some (num * 1000 * 1000 * 1000 * 1000 * 1000 * 1000))
    else if suffix = txt "eb" ∨ suffix = txt "ei" ∨ suffix = txt "eib" then
      .ok (some (num * 1024 * 1024 * 1024 * 1024 * 1024 * 1024))
    else .ok none

def Parser.pushIncludedKey (p : Parser) (k : List UInt8) (v : Value) : Parser :=
  let p := p.pushKey k
  if p.pedantic then
    match v with
    | .token it _ _ _ => p.pushItemKey it
    | _ => p
  else p

def Parser.processItem (nested : List (List UInt8) → List UInt8 → Except Err Parser)
    (refs : List (List UInt8)) (p : Parser) (it : Item) (fp : List UInt8) : Except Err Parser :=
  let setValue (p : Parser) (it : Item) (v : Value) : Except Err Parser :=
    if p.pedantic then p.setValue (.token it v false fp) else p.setValue v
  match it.typ with
  | .itemError => .error (.error (txt "Parse error on line " ++ fmtInt it.line ++ txt ": '" ++
      it.val ++ txt "'"))
  | .itemKey => .ok (if p.pedantic then (p.pushKey it.val).pushItemKey it else p.pushKey it.val)
  | .itemMapStart => .ok (p.pushContext (.map []))
  | .itemMapEnd => do
    let (p, last) ← p.popContext
    setValue p it last.value
  | .itemString => setValue p it (.str it.val)
  | .itemInteger => do
    match ← integerValue uc it.val with
    | some n => setValue p it (.int n)
    | none => .ok p
  | .itemFloat =>
    match strconv.ParseFloat it.val with
    | .error .ErrRange => .error (.error (txt "float '" ++ it.val ++ txt "' is out of the range"))
    | .error .ErrSyntax => .error (.error (txt "expected float, but got '" ++ it.val ++ txt "'"))
    | .ok x => setValue p it (.float x)
  | .itemBool =>
    let b := strings.ToLower uc it.val
    if b = txt "true" ∨ b = txt "yes" ∨ b = txt "on" then setValue p it (.bool true)
    else if b = txt "false" ∨ b = txt "no" ∨ b = txt "off" then setValue p it (.bool false)
    else .error (.error (txt "expected boolean value, but got '" ++ it.val ++ txt "'"))
  | .itemDatetime =>
    match time.ParseZulu it.val with
    | some dt => setValue p it (.datetime dt)
    | none => .error (.error (txt "expected Zulu formatted DateTime, but got '" ++ it.val ++ txt "'"))
  | .itemArrayStart => .ok (p.pushContext (.array []))
  -- array := p.ctx is the context popContext returns
  | .itemArrayEnd => do
    let (p, array) ← p.popContext
    setValue p it array.value
  | .itemVariable =>
    match p.lookupVariable env nested refs it.val with
    | .error (.error e) => .error (.error (txt "variable reference for '" ++ it.val ++
        txt "' on line " ++ fmtInt it.line ++ txt " could not be parsed: " ++ e))
    | .error e => .error e
    | .ok none => .error (.error (txt "variable reference for '" ++ it.val ++ txt "' on line " ++
        fmtInt it.line ++ txt " can not be found"))
    | .ok (some (value, loc)) =>
      if p.pedantic then
        match value, loc with
        -- the looked-up token is marked used where it is kept
        | .token _ v _ _, some i => { p with ctxs := markUsed it.val i p.ctxs }.setValue (.token it v false fp)
        | .token _ v _ _, none => p.setValue (.token it v false fp)
        | _, _ => p.setValue (.token it value false fp)
      else p.setValue value
  | .itemInclude =>
    match parseFile p.pedantic p.fp it.val with
    | .error (.error e) => .error (.error (txt "error parsing include file '" ++ it.val ++
        txt "', " ++ e))
    | .error e => .error e
    | .ok m => m.foldlM (fun p kv => (p.pushIncludedKey kv.1 kv.2).setValue kv.2) p
  | _ => .ok p

def zeroItem : Item := ⟨.itemError, [], 0, 0⟩

def parseLoop (nested : List (List UInt8) → List UInt8 → Except Err Parser)
    (refs : List (List UInt8)) (fp : List UInt8) (fuel : Nat) : Nat → Parser → Item → Except Err Parser
  | 0, _, _ => .error .outOfFuel
  | n + 1, p, prevItem =>
    match p.lx.nextItem uc fuel with
    | .error e => .error e
    | .ok (it, lx) =>
      let p := { p with lx }
      if it.typ = .itemEOF then
        -- a final '}' is let through, for JSON-like input
        if prevItem.typ = .itemKey ∧ prevItem.val ≠ mapEndString then
          .error (.error (txt "config is invalid (" ++ fp ++ txt ":" ++ fmtInt it.line ++ txt ":" ++
            fmtInt it.pos ++ txt ")"))
        else .ok p
      else do
        let p ← p.processItem uc env parseFile nested refs it fp
        parseLoop nested refs fp fuel n p it

/-- parse, and parseEnv for the value of an environment variable, which shares the references
and is neither pedantic nor from a file. -/
def parse : Nat → List (List UInt8) → List UInt8 → List UInt8 → Bool → Except Err Parser
  | 0, _, _, _, _ => .error .outOfFuel
  | fuel + 1, refs, data, fp, pedantic =>
    let p := (newParser data fp pedantic).pushContext (.map [])
    parseLoop uc env parseFile (fun refs data => parse fuel refs data [] false) refs fp (fuel + 1)
      (fuel + 1) p zeroItem

/-- The fuel `Parse` runs with: enough for the lexer of the text and of every environment value,
through as many variables as the environment names. -/
def parseFuel (data : List UInt8) : Nat :=
  8 * (data.length + (env.map fun e => e.2.length).sum + 8) + env.length + 2

def Parse (data : List UInt8) : Except Err (List (List UInt8 × Value)) :=
  (parse uc env parseFile (parseFuel env data) [] data [] false).map Parser.mapping

def ParseWithChecks (data : List UInt8) : Except Err (List (List UInt8 × Value)) :=
  (parse uc env parseFile (parseFuel env data) [] data [] true).map Parser.mapping

end Parse

end NatsServer.Conf
