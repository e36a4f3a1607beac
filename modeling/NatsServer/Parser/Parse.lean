import Mathlib.Data.List.Basic

/-!
# The protocol parser on the publish path

`client.parse` is a byte-at-a-time state machine over one read buffer. A control line is
sliced out of the buffer when it ends in the same buffer, `buf[as : i - drop]`, where `drop` is
set by any `\r` of the line; when the buffer ends inside the line, what was read is copied to
`argBuf` and later buffers append every byte but `\r`. A payload is skipped over by index when
it is in the buffer and copied to `msgBuf` when it is split.

The model is the parser of a client connection for the operations `PUB`, `PING` and `PONG`,
with no authentication pending, no tracing and no subject mappings; every other operation
stops it as unmodelled. The handler calls are recorded as events.
-/

namespace NatsServer.Parser

inductive ParserState
  | OP_START
  | OP_P
  | OP_PU
  | OP_PUB
  | OP_PUB_SPC
  | PUB_ARG
  | OP_PI
  | OP_PIN
  | OP_PING
  | OP_PO
  | OP_PON
  | OP_PONG
  | MSG_PAYLOAD
  | MSG_END_R
  | MSG_END_N
  deriving DecidableEq, Repr

inductive Event
  | processPub (arg : List UInt8)
  | processPing
  | processPong
  | processInboundMsg (msg : List UInt8)
  deriving DecidableEq, Repr

inductive ParseError
  | parse (state : ParserState) (i : Nat)
  | maxControlLine
  | pubParse (arg : List UInt8)
  | pubBadSize (arg : List UInt8)
  | maxPayload
  | unmodelled
  deriving DecidableEq, Repr

structure PubArg where
  arg : List UInt8
  subject : List UInt8
  reply : List UInt8
  size : Nat
  hdr : Int
  deriving DecidableEq, Repr

structure ParseState where
  state : ParserState
  as : Nat
  drop : Nat
  pa : PubArg
  argBuf : Option (List UInt8)
  msgBuf : Option (List UInt8)
  deriving DecidableEq, Repr

structure Opts where
  mcl : Nat
  mpay : Int

def byte (c : Char) : UInt8 := c.toNat.toUInt8

def isLetter (b : UInt8) (c : Char) : Bool := b == byte c.toUpper || b == byte c.toLower

def isBlank (b : UInt8) : Bool := b == byte ' ' || b == byte '\t'

def fresh : ParseState := ⟨.OP_START, 0, 0, ⟨[], [], [], 0, 0⟩, none, none⟩

def pubArgs (arg : List UInt8) : List (List UInt8) := (arg.splitOnP isBlank).filter (· ≠ [])

def parseSize (d : List UInt8) : Option Nat :=
  if d.length = 0 ∨ d.length > 9 then none
  else if d.all fun b => byte '0' ≤ b ∧ b ≤ byte '9' then
    some (d.foldl (fun n b => 10 * n + (b.toNat - 48)) 0)
  else none

def processPub (opts : Opts) (pa : PubArg) (arg : List UInt8) : Except ParseError PubArg :=
  let withSize (subject reply szb : List UInt8) : Except ParseError PubArg :=
    match parseSize szb with
    | none => .error (.pubBadSize arg)
    | some size =>
      -- the limit -1 is jwt.NoLimit
      if opts.mpay ≠ -1 ∧ (size : Int) > opts.mpay then .error .maxPayload
      else .ok { pa with arg := arg, subject := subject, reply := reply, size := size }
  match pubArgs arg with
  | [subject, szb] => withSize subject [] szb
  | [subject, reply, szb] => withSize subject reply szb
  | _ => .error (.pubParse arg)

def overMaxControlLineLimit (opts : Opts) (arg : List UInt8) : Bool := arg.length > opts.mcl

inductive Step
  | next (i : Nat) (st : ParseState) (events : List Event)
  | fail (events : List Event) (err : ParseError)

def Step.parseErr (st : ParseState) (i : Nat) : Step := .fail [] (.parse st.state i)

def controlLine (buf : List UInt8) (st : ParseState) (i : Nat) : List UInt8 :=
  match st.argBuf with
  | some a => a
  | none => (buf.take (i - st.drop)).drop st.as

def parseByte (opts : Opts) (buf : List UInt8) (i : Nat) (b : UInt8) (st : ParseState) : Step :=
  let go (s : ParserState) : Step := .next (i + 1) { st with state := s } []
  match st.state with
  | .OP_START =>
    if isLetter b 'p' then go .OP_P
    else if isLetter b 'r' ∨ isLetter b 'l' ∨ isLetter b 'a' then Step.parseErr st i
    else if isLetter b 'h' ∨ isLetter b 's' ∨ isLetter b 'u' ∨ isLetter b 'c' ∨ isLetter b 'i' ∨
      b = byte '+' ∨ b = byte '-' then .fail [] .unmodelled
    else Step.parseErr st i
  | .OP_P =>
    if isLetter b 'u' then go .OP_PU
    else if isLetter b 'i' then go .OP_PI
    else if isLetter b 'o' then go .OP_PO
    else Step.parseErr st i
  | .OP_PU => if isLetter b 'b' then go .OP_PUB else Step.parseErr st i
  | .OP_PUB => if isBlank b then go .OP_PUB_SPC else Step.parseErr st i
  | .OP_PUB_SPC =>
    if isBlank b then .next (i + 1) st []
    else .next (i + 1) { st with pa := { st.pa with hdr := -1 }, state := .PUB_ARG, as := i } []
  | .PUB_ARG =>
    if b = byte '\r' then .next (i + 1) { st with drop := 1 } []
    else if b = byte '\n' then
      let arg := controlLine buf st i
      if overMaxControlLineLimit opts arg then .fail [] .maxControlLine
      else
        match processPub opts st.pa arg with
        | .error e => .fail [] e
        | .ok pa =>
          let st' := { st with
            argBuf := none, pa := pa, drop := 0, as := i + 1, state := .MSG_PAYLOAD }
          -- without a saved buffer the payload is jumped over: i = as + size - LEN_CR_LF
          .next (if st.msgBuf.isNone then i + pa.size else i + 1) st' [.processPub arg]
    else .next (i + 1) { st with argBuf := st.argBuf.map (· ++ [b]) } []
  | .OP_PI => if isLetter b 'n' then go .OP_PIN else Step.parseErr st i
  | .OP_PIN => if isLetter b 'g' then go .OP_PING else Step.parseErr st i
  | .OP_PING =>
    if b = byte '\n' then .next (i + 1) { st with drop := 0, state := .OP_START } [.processPing]
    else .next (i + 1) st []
  | .OP_PO => if isLetter b 'n' then go .OP_PON else Step.parseErr st i
  | .OP_PON => if isLetter b 'g' then go .OP_PONG else Step.parseErr st i
  | .OP_PONG =>
    if b = byte '\n' then .next (i + 1) { st with drop := 0, state := .OP_START } [.processPong]
    else .next (i + 1) st []
  | .MSG_PAYLOAD =>
    match st.msgBuf with
    | some m =>
      -- copy as much as there is and skip ahead
      let toCopy := min (st.pa.size - m.length) (buf.length - i)
      let (m', i') := if toCopy > 0 then (m ++ (buf.drop i).take toCopy, i + toCopy)
        else (m ++ [b], i + 1)
      .next i' { st with
        msgBuf := some m', state := if m'.length ≥ st.pa.size then .MSG_END_R else .MSG_PAYLOAD } []
    | none =>
      .next (i + 1) { st with
        state := if i + 1 ≥ st.as + st.pa.size then .MSG_END_R else .MSG_PAYLOAD } []
  | .MSG_END_R =>
    if b ≠ byte '\r' then Step.parseErr st i
    else .next (i + 1) { st with msgBuf := st.msgBuf.map (· ++ [b]), state := .MSG_END_N } []
  | .MSG_END_N =>
    if b ≠ byte '\n' then Step.parseErr st i
    else
      let msg := match st.msgBuf with
        | some m => m ++ [b]
        | none => (buf.take (i + 1)).drop st.as
      let pa := { st.pa with arg := [], subject := [], reply := [], hdr := -1, size := 0 }
      .next (i + 1) { st with
        argBuf := none, msgBuf := none, drop := 0, as := i + 1, state := .OP_START, pa := pa }
        [.processInboundMsg msg]

/-- The loop over the buffer from index `i`, to the index it stops at. Every byte but the `\n`
of a line announcing an empty payload moves the index forward, and that one moves the state
to the payload. -/
def parseLoop (opts : Opts) (buf : List UInt8) : Nat → Nat → ParseState → List Event →
    Nat × ParseState × List Event × Option ParseError
  | 0, i, st, evs => (i, st, evs, none)
  | fuel + 1, i, st, evs =>
    match buf[i]? with
    | none => (i, st, evs, none)
    | some b =>
      match parseByte opts buf i b st with
      | .next i' st' evs' => parseLoop opts buf fuel i' st' (evs ++ evs')
      | .fail evs' err => (i, st, evs ++ evs', some err)

def splitBuffer (opts : Opts) (buf : List UInt8) (i : Nat) (st : ParseState) (evs : List Event) :
    ParseState × List Event × Option ParseError :=
  if st.state = .PUB_ARG then
    let a := st.argBuf.getD ((buf.take (i - st.drop)).drop st.as)
    if overMaxControlLineLimit opts a then (st, evs, some .maxControlLine)
    else ({ st with argBuf := some a }, evs, none)
  else if (st.state = .MSG_PAYLOAD ∨ st.state = .MSG_END_R ∨ st.state = .MSG_END_N) ∧
      st.msgBuf.isNone then
    -- a pubArg still in the read buffer is cloned by parsing it again
    let cloned : Except ParseError (ParseState × List Event) :=
      match st.argBuf with
      | some _ => .ok (st, evs)
      | none =>
        match processPub opts st.pa st.pa.arg with
        | .ok pa => .ok ({ st with argBuf := some st.pa.arg, pa := pa },
            evs ++ [.processPub st.pa.arg])
        | .error _ => .error (.parse st.state i)
    match cloned with
    | .error e => (st, evs, some e)
    | .ok (st, evs) =>
      let rest := buf.drop st.as
      -- the scratch buffer holds MAX_CONTROL_LINE_SIZE bytes
      if (st.pa.size : Int) > 4096 - ((st.argBuf.getD []).length : Int) ∧
          rest.length > st.pa.size + 2 then
        (st, evs, some (.parse st.state i))
      else ({ st with msgBuf := some rest }, evs, none)
  else (st, evs, none)

def parse (opts : Opts) (st : ParseState) (buf : List UInt8) :
    ParseState × List Event × Option ParseError :=
  match parseLoop opts buf (2 * buf.length + 1) 0 st [] with
  | (_, st', evs, some err) => (st', evs, some err)
  | (i, st', evs, none) => splitBuffer opts buf i st' evs

def parseChunks (opts : Opts) : ParseState → List (List UInt8) → List Event × Option ParseError
  | _, [] => ([], none)
  | st, c :: cs =>
    match parse opts st c with
    | (_, evs, some err) => (evs, some err)
    | (st', evs, none) =>
      let r := parseChunks opts st' cs
      (evs ++ r.1, r.2)

/-- A `\r` inside a control line is kept when the line ends in the buffer it started in, which
slices it as `buf[as : i - drop]`, and dropped when the line is split, since later buffers
append every byte but `\r`: the arguments processPub receives depend on the split. A payload
split from its line makes the parser call processPub on the line a second time, to clone it. -/
theorem parse_split_cr :
    parseChunks ⟨4096, 1048576⟩ fresh ["PUB a\rb 1\r\nx\r\n".toUTF8.toList] =
      ([.processPub "a\rb 1".toUTF8.toList, .processInboundMsg "x\r\n".toUTF8.toList], none) ∧
    parseChunks ⟨4096, 1048576⟩ fresh ["PUB a".toUTF8.toList, "\rb 1\r\nx\r\n".toUTF8.toList] =
      ([.processPub "ab 1".toUTF8.toList, .processInboundMsg "x\r\n".toUTF8.toList], none) ∧
    parseChunks ⟨4096, 1048576⟩ fresh ["PUB foo 5\r\nhel".toUTF8.toList, "lo\r\n".toUTF8.toList] =
      ([.processPub "foo 5".toUTF8.toList, .processPub "foo 5".toUTF8.toList,
        .processInboundMsg "hello\r\n".toUTF8.toList], none) := by
  decide +kernel

end NatsServer.Parser
