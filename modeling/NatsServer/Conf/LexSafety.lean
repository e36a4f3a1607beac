import NatsServer.Conf.Lex

/-!
# What a step of the lexer keeps

One call of a state function moves the lexer by what it reads: `next` by the width of a rune,
`backup` back by the width of the last one, `peek` not at all. Every backup in `lex.go` follows
the next it undoes, or, in lexBlock, the one before it over an ASCII byte, so no backup goes below
the start of the input; no slice reaches past its end because the start of an item never passes
the position. Below, each primitive gets the lemmas that say what it does to the fields a step
depends on.
-/

namespace NatsServer.Conf

open NatsServer.Lib

namespace Lexer

variable (lx : Lexer)

def nextWidth : Nat :=
  if lx.pos < lx.input.length then (utf8.DecodeRune (lx.input.drop lx.pos)).2 else 0

section Fields

@[simp] theorem advance_input : lx.advance.input = lx.input := by unfold advance; split <;> rfl
@[simp] theorem advance_start : lx.advance.start = lx.start := by unfold advance; split <;> rfl
@[simp] theorem advance_items : lx.advance.items = lx.items := by unfold advance; split <;> rfl
@[simp] theorem advance_stack : lx.advance.stack = lx.stack := by unfold advance; split <;> rfl
@[simp] theorem advance_stringStateFn : lx.advance.stringStateFn = lx.stringStateFn := by
  unfold advance; split <;> rfl
@[simp] theorem advance_stringParts : lx.advance.stringParts = lx.stringParts := by
  unfold advance; split <;> rfl
@[simp] theorem advance_panicked : lx.advance.panicked = lx.panicked := by
  unfold advance; split <;> rfl
@[simp] theorem advance_pos : lx.advance.pos = lx.pos + lx.nextWidth := by
  unfold advance nextWidth; split <;> rfl
@[simp] theorem advance_width : lx.advance.width = lx.nextWidth := by
  unfold advance nextWidth; split <;> rfl

@[simp] theorem backup_input : lx.backup.input = lx.input := by unfold backup; split <;> rfl
@[simp] theorem backup_start : lx.backup.start = lx.start := by unfold backup; split <;> rfl
@[simp] theorem backup_items : lx.backup.items = lx.items := by unfold backup; split <;> rfl
@[simp] theorem backup_stack : lx.backup.stack = lx.stack := by unfold backup; split <;> rfl
@[simp] theorem backup_stringStateFn : lx.backup.stringStateFn = lx.stringStateFn := by
  unfold backup; split <;> rfl
@[simp] theorem backup_stringParts : lx.backup.stringParts = lx.stringParts := by
  unfold backup; split <;> rfl
@[simp] theorem backup_width : lx.backup.width = lx.width := by unfold backup; split <;> rfl

theorem backup_pos (h : lx.width ≤ lx.pos) : lx.backup.pos = lx.pos - lx.width := by
  rw [backup, if_pos h]

theorem backup_panicked (h : lx.width ≤ lx.pos) : lx.backup.panicked = lx.panicked := by
  rw [backup, if_pos h]

@[simp] theorem advance_backup_pos : lx.advance.backup.pos = lx.pos := by
  rw [backup_pos] <;> simp

@[simp] theorem advance_backup_panicked : lx.advance.backup.panicked = lx.panicked := by
  rw [backup_panicked] <;> simp

@[simp] theorem advance_backup_advance : lx.advance.backup.advance = lx.advance := by
  by_cases h : lx.pos < lx.input.length
  · have hb : lx.advance.width ≤ lx.advance.pos := by simp
    rw [backup, if_pos hb]
    simp only [advance, if_pos h]
    by_cases hn : lx.input[lx.pos] = 0x0A <;> simp [hn, h]
  · simp [advance, backup, h]

theorem advance_backup_backup_pos (h : lx.nextWidth ≤ lx.pos) :
    lx.advance.backup.backup.pos = lx.pos - lx.nextWidth := by
  rw [backup_pos _ (by simpa using h)]
  simp

theorem advance_backup_backup_panicked (h : lx.nextWidth ≤ lx.pos) :
    lx.advance.backup.backup.panicked = lx.panicked := by
  rw [backup_panicked _ (by simpa using h)]
  simp

variable {lo hi : Nat}

@[simp] theorem inRange_input : (lx.inRange lo hi).input = lx.input := by unfold inRange; split <;> rfl
@[simp] theorem inRange_start : (lx.inRange lo hi).start = lx.start := by unfold inRange; split <;> rfl
@[simp] theorem inRange_pos : (lx.inRange lo hi).pos = lx.pos := by unfold inRange; split <;> rfl
@[simp] theorem inRange_width : (lx.inRange lo hi).width = lx.width := by unfold inRange; split <;> rfl
@[simp] theorem inRange_items : (lx.inRange lo hi).items = lx.items := by unfold inRange; split <;> rfl
@[simp] theorem inRange_stack : (lx.inRange lo hi).stack = lx.stack := by unfold inRange; split <;> rfl
@[simp] theorem inRange_stringStateFn : (lx.inRange lo hi).stringStateFn = lx.stringStateFn := by
  unfold inRange; split <;> rfl
@[simp] theorem inRange_stringParts : (lx.inRange lo hi).stringParts = lx.stringParts := by
  unfold inRange; split <;> rfl
@[simp] theorem inRange_line : (lx.inRange lo hi).line = lx.line := by unfold inRange; split <;> rfl
@[simp] theorem inRange_lstart : (lx.inRange lo hi).lstart = lx.lstart := by
  unfold inRange; split <;> rfl
@[simp] theorem inRange_ilstart : (lx.inRange lo hi).ilstart = lx.ilstart := by
  unfold inRange; split <;> rfl
@[simp] theorem inRange_panicked :
    (lx.inRange lo hi).panicked = (lx.panicked || !decide (lo ≤ hi ∧ hi ≤ lx.input.length)) := by
  unfold inRange
  split
  · simp [‹lo ≤ hi ∧ hi ≤ lx.input.length›]
  · simp [decide_eq_false ‹¬(lo ≤ hi ∧ hi ≤ lx.input.length)›]

variable (t : ItemType)

@[simp] theorem emit_input : (lx.emit t).input = lx.input := by simp [emit]
@[simp] theorem emit_start : (lx.emit t).start = lx.pos := by simp [emit]
@[simp] theorem emit_pos : (lx.emit t).pos = lx.pos := by simp [emit]
@[simp] theorem emit_width : (lx.emit t).width = lx.width := by simp [emit]
@[simp] theorem emit_stack : (lx.emit t).stack = lx.stack := by simp [emit]
@[simp] theorem emit_stringStateFn : (lx.emit t).stringStateFn = lx.stringStateFn := by simp [emit]
@[simp] theorem emit_stringParts : (lx.emit t).stringParts = lx.stringParts := by simp [emit]
@[simp] theorem emit_panicked :
    (lx.emit t).panicked = (lx.panicked || !decide (lx.start ≤ lx.pos ∧ lx.pos ≤ lx.input.length)) := by
  simp [emit]

def emitItem : Item :=
  let val := lx.stringParts.flatten ++ slice lx.input lx.start lx.pos
  ⟨t, val, lx.line, (lx.pos : Int) - lx.ilstart - val.length⟩

@[simp] theorem emitItem_typ : (lx.emitItem t).typ = t := rfl

@[simp] theorem emit_items : (lx.emit t).items = lx.items ++ [lx.emitItem t] := by
  simp [emit, emitItem]

@[simp] theorem ignore_input : lx.ignore.input = lx.input := rfl
@[simp] theorem ignore_start : lx.ignore.start = lx.pos := rfl
@[simp] theorem ignore_pos : lx.ignore.pos = lx.pos := rfl
@[simp] theorem ignore_width : lx.ignore.width = lx.width := rfl
@[simp] theorem ignore_items : lx.ignore.items = lx.items := rfl
@[simp] theorem ignore_stack : lx.ignore.stack = lx.stack := rfl
@[simp] theorem ignore_stringStateFn : lx.ignore.stringStateFn = lx.stringStateFn := rfl
@[simp] theorem ignore_stringParts : lx.ignore.stringParts = lx.stringParts := rfl
@[simp] theorem ignore_panicked : lx.ignore.panicked = lx.panicked := rfl

@[simp] theorem emitString_input : lx.emitString.input = lx.input := by simp [emitString]
@[simp] theorem emitString_start : lx.emitString.start = lx.pos := by simp [emitString]
@[simp] theorem emitString_pos : lx.emitString.pos = lx.pos := by simp [emitString]
@[simp] theorem emitString_width : lx.emitString.width = lx.width := by simp [emitString]
@[simp] theorem emitString_items : lx.emitString.items = lx.items ++ [lx.emitItem .itemString] := by
  simp [emitString]
@[simp] theorem emitString_stack : lx.emitString.stack = lx.stack := by simp [emitString]
@[simp] theorem emitString_stringStateFn : lx.emitString.stringStateFn = lx.stringStateFn := by
  simp [emitString]
@[simp] theorem emitString_panicked :
    lx.emitString.panicked = (lx.panicked || !decide (lx.start ≤ lx.pos ∧ lx.pos ≤ lx.input.length)) := by
  simp [emitString]

variable (k : Nat)

@[simp] theorem addCurrentStringPart_input : (lx.addCurrentStringPart k).input = lx.input := by
  unfold addCurrentStringPart; split <;> simp
@[simp] theorem addCurrentStringPart_start : (lx.addCurrentStringPart k).start = lx.pos := by
  unfold addCurrentStringPart; split <;> simp
@[simp] theorem addCurrentStringPart_pos : (lx.addCurrentStringPart k).pos = lx.pos := by
  unfold addCurrentStringPart; split <;> simp
@[simp] theorem addCurrentStringPart_items : (lx.addCurrentStringPart k).items = lx.items := by
  unfold addCurrentStringPart; split <;> simp
@[simp] theorem addCurrentStringPart_stack : (lx.addCurrentStringPart k).stack = lx.stack := by
  unfold addCurrentStringPart; split <;> simp
@[simp] theorem addCurrentStringPart_stringStateFn :
    (lx.addCurrentStringPart k).stringStateFn = lx.stringStateFn := by
  unfold addCurrentStringPart; split <;> simp
@[simp] theorem addCurrentStringPart_panicked : (lx.addCurrentStringPart k).panicked =
    (lx.panicked || !decide (k ≤ lx.pos ∧ lx.start ≤ lx.pos - k ∧ lx.pos - k ≤ lx.input.length)) := by
  unfold addCurrentStringPart
  split <;> simp [*]

theorem isVariable_cases :
    lx.isVariable = (false, lx) ∨
      lx.input[lx.start]? = some 0x24 ∧ lx.isVariable = (true, { lx with start := lx.start + 1 }) := by
  unfold isVariable
  split
  · exact .inl rfl
  · split
    · exact .inr ⟨‹_›, rfl⟩
    · exact .inl rfl

variable (c : StateFn)

@[simp] theorem push_input : (lx.push c).input = lx.input := rfl
@[simp] theorem push_start : (lx.push c).start = lx.start := rfl
@[simp] theorem push_pos : (lx.push c).pos = lx.pos := rfl
@[simp] theorem push_width : (lx.push c).width = lx.width := rfl
@[simp] theorem push_items : (lx.push c).items = lx.items := rfl
@[simp] theorem push_stack : (lx.push c).stack = c :: lx.stack := rfl
@[simp] theorem push_stringStateFn : (lx.push c).stringStateFn = lx.stringStateFn := rfl
@[simp] theorem push_stringParts : (lx.push c).stringParts = lx.stringParts := rfl
@[simp] theorem push_panicked : (lx.push c).panicked = lx.panicked := rfl

end Fields

section Runes

variable {lx}

theorem pos_lt_of_rune_ne (h : lx.rune ≠ eof) : lx.pos < lx.input.length := by
  by_contra hp
  exact h (by rw [rune, if_neg hp])

theorem nextWidth_pos (h : lx.pos < lx.input.length) : 0 < lx.nextWidth := by
  rw [nextWidth, if_pos h]
  exact utf8.DecodeRune_size_pos (by simpa using h)

theorem pos_add_nextWidth_le (h : lx.pos ≤ lx.input.length) :
    lx.pos + lx.nextWidth ≤ lx.input.length := by
  unfold nextWidth
  split
  · have := utf8.DecodeRune_size_le (s := lx.input.drop lx.pos)
    simp only [List.length_drop] at this
    omega
  · omega

theorem rune_lt (h : lx.rune < 0x80) (hp : lx.pos < lx.input.length) :
    lx.input[lx.pos]? = some lx.rune.toUInt8 ∧ lx.nextWidth = 1 := by
  obtain ⟨b, rest, hb⟩ := List.exists_cons_of_ne_nil (by simpa using hp : lx.input.drop lx.pos ≠ [])
  have hr : lx.rune = (utf8.DecodeRune (b :: rest)).1 := by rw [rune, if_pos hp, hb]
  have hd := utf8.DecodeRune_of_fst_lt (hr ▸ h)
  have hget : lx.input[lx.pos]? = some b := by
    rw [← List.head?_drop, hb]
    rfl
  refine ⟨?_, ?_⟩
  · rw [hget, hr, hd]
    simp
  · rw [nextWidth, if_pos hp, hb, hd]

theorem rune_of_getElem {b : UInt8} (h : lx.input[lx.pos]? = some b) (hb : b < 0x80) :
    lx.rune = b.toNat := by
  have hp : lx.pos < lx.input.length := by
    by_contra hn
    rw [List.getElem?_eq_none (by omega)] at h
    cases h
  obtain ⟨c, rest, hc⟩ := List.exists_cons_of_ne_nil (by simpa using hp : lx.input.drop lx.pos ≠ [])
  have : c = b := by
    rw [← List.head?_drop, hc] at h
    simpa using h
  subst this
  rw [rune, if_pos hp, hc, utf8.DecodeRune_ascii hb]

theorem nextWidth_eq {l : Lexer} (hi : l.input = lx.input) (hp : l.pos = lx.pos) :
    l.nextWidth = lx.nextWidth := by
  simp only [nextWidth, hi, hp]

theorem rune_eq {l : Lexer} (hi : l.input = lx.input) (hp : l.pos = lx.pos) : l.rune = lx.rune := by
  simp only [rune, hi, hp]

@[simp] theorem advance_backup_nextWidth : lx.advance.backup.nextWidth = lx.nextWidth :=
  nextWidth_eq (by simp) (by simp)

@[simp] theorem advance_backup_rune : lx.advance.backup.rune = lx.rune := rune_eq (by simp) (by simp)

@[simp] theorem ignore_nextWidth : lx.ignore.nextWidth = lx.nextWidth := rfl
@[simp] theorem ignore_rune : lx.ignore.rune = lx.rune := rfl
@[simp] theorem emitString_nextWidth : lx.emitString.nextWidth = lx.nextWidth :=
  nextWidth_eq (by simp) (by simp)
@[simp] theorem push_nextWidth (c : StateFn) : (lx.push c).nextWidth = lx.nextWidth := rfl
@[simp] theorem push_rune (c : StateFn) : (lx.push c).rune = lx.rune := rfl
@[simp] theorem emit_nextWidth (t : ItemType) : (lx.emit t).nextWidth = lx.nextWidth :=
  nextWidth_eq (by simp) (by simp)
@[simp] theorem emit_rune (t : ItemType) : (lx.emit t).rune = lx.rune := rune_eq (by simp) (by simp)

theorem nextWidth_le_one (h : lx.rune < 0x80) : lx.nextWidth ≤ 1 := by
  by_cases hp : lx.pos < lx.input.length
  · exact Nat.le_of_eq (rune_lt h hp).2
  · rw [nextWidth, if_neg hp]
    omega

theorem nextWidth_before_ascii {l : Lexer} {b : UInt8} (hi : l.input = lx.input)
    (hp : l.pos + 1 = lx.pos) (hget : lx.input[lx.pos]? = some b) (hb : b < 0x80) :
    l.nextWidth = 1 := by
  obtain ⟨hlt, hb'⟩ := List.getElem?_eq_some_iff.mp hget
  have hl : l.pos < l.input.length := by rw [hi]; omega
  have hdrop : l.input.drop l.pos = l.input[l.pos] :: b :: lx.input.drop (lx.pos + 1) := by
    rw [List.drop_eq_getElem_cons hl]
    congr 1
    rw [hi, hp, List.drop_eq_getElem_cons hlt, hb']
  rw [nextWidth, if_pos hl, hdrop, utf8.DecodeRune_size_of_ascii hb]

theorem end_cases (h : lx.pos ≤ lx.input.length) :
    (lx.pos < lx.input.length ∧ 0 < lx.nextWidth ∧ lx.pos + lx.nextWidth ≤ lx.input.length) ∨
      (lx.pos = lx.input.length ∧ lx.rune = eof ∧ lx.nextWidth = 0) := by
  rcases Nat.lt_or_ge lx.pos lx.input.length with hlt | hge
  · exact .inl ⟨hlt, nextWidth_pos hlt, pos_add_nextWidth_le h⟩
  · refine .inr ⟨by omega, ?_, ?_⟩
    · rw [rune, if_neg (by omega)]
    · rw [nextWidth, if_neg (by omega)]

end Runes

end Lexer

/-! ## Error texts

The only error a state can end with that is not of its own making is the one of `pop` on an empty
stack. Every other text starts with a byte other than the `B` that one starts with. -/

section Texts

variable {s : String}

theorem txt_head? (s : String) :
    (txt s).head? = s.toList.head?.bind fun c => (String.utf8EncodeChar c).head? := by
  rw [txt, String.toUTF8_toList]
  cases s.toList with
  | nil => rfl
  | cons c cs =>
    obtain ⟨b, bs, hb⟩ := List.exists_cons_of_ne_nil (String.utf8EncodeChar_ne_nil (c := c))
    simp [hb]

theorem noStatesToPop_head? : noStatesToPop.head? = some 0x42 := by
  simp [noStatesToPop, txt_head?, String.utf8EncodeChar]

@[simp] theorem txt_eq_noStatesToPop : txt s = noStatesToPop ↔ s = "BUG in lexer: no states to pop." :=
  String.toUTF8_toList_inj

@[simp] theorem txt_append_eq_noStatesToPop (b : List UInt8) (hs : s ≠ "")
    (h : (txt s).head? ≠ some 0x42) : txt s ++ b = noStatesToPop ↔ False := by
  refine iff_false_intro fun he => h ?_
  have hne : txt s ≠ [] := fun hn => hs (String.toUTF8_toList_inj.mp (hn.trans (by simp)))
  rw [← noStatesToPop_head?, ← he, List.head?_append_of_ne_nil _ hne]

end Texts

/-! ## The stack each state runs on -/

inductive Kind
  | map
  | array
  deriving DecidableEq, Repr

/-- The stack under the states of a block, `{ ... }` at the top: lexTop at the bottom, and a
lexBlockEnd for each block in it. -/
inductive BlockStack : List StateFn → Prop
  | top : BlockStack [.lexTop]
  | nest {st : List StateFn} : BlockStack st → BlockStack (.lexBlockEnd :: st)

inductive ValueStack : List StateFn → Prop
  | top : ValueStack [.lexTopValueEnd]
  | block {st : List StateFn} : BlockStack st → ValueStack (.lexBlockValueEnd :: st)
  | array {st : List StateFn} : ValueStack st → ValueStack (.lexArrayValueEnd :: st)
  | map {st : List StateFn} : ValueStack st → ValueStack (.lexMapValueEnd :: st)

inductive KeyStack : List StateFn → Prop
  | top : KeyStack [.lexTopValueEnd]
  | block {st : List StateFn} : BlockStack st → KeyStack (.lexBlockValueEnd :: st)

inductive IncludeStack : List StateFn → Prop
  | key {st : List StateFn} : KeyStack st → IncludeStack st
  | map {st : List StateFn} : ValueStack st → IncludeStack (.lexMapValueEnd :: st)

def commentReturn : StateFn → Bool
  | .lexTop | .lexBlockStart | .lexBlockValueEnd | .lexArrayValue | .lexArrayValueEnd
  | .lexMapKeyStart | .lexMapValueEnd => true
  | _ => false

def BaseConfig : StateFn → List StateFn → Prop
  | .lexTop, st | .lexTopValueEnd, st => st = []
  | .lexBlockStart, st | .lexBlockValueEnd, st | .lexBlockEnd, st => BlockStack st
  | .lexKeyStart, st | .lexDubQuotedKey, st | .lexQuotedKey, st | .lexKey, st
  | .lexKeyEnd, st => KeyStack st
  | .lexIncludeStart, st | .lexIncludeQuotedString, st | .lexIncludeDubQuotedString, st
  | .lexIncludeString, st | .lexInclude, st => IncludeStack st
  | .lexCommentStart, _ | .lexComment, _ | .skip _, _ => False
  | _, st => ValueStack st

def Config : StateFn → List StateFn → Prop
  | .lexCommentStart, c :: st | .lexComment, c :: st => commentReturn c ∧ BaseConfig c st
  | .skip s, st => BaseConfig s st
  | s, st => BaseConfig s st

/-! ## What the items so far leave open -/

def frames : List StateFn → List Kind
  | .lexArrayValueEnd :: st => .array :: frames st
  | .lexMapValueEnd :: st => .map :: frames st
  | _ => []

/-- How many keys a value and the containers it is in take when they are set: one for a value
in a map, none for one in an array. -/
def slots : List StateFn → Nat
  | .lexArrayValueEnd :: st => slots st
  | .lexMapValueEnd :: st => slots st + 1
  | _ => 1

/-- The open containers and the keys the items so far announce whose values are still to come,
for a state that is no comment and no skip. -/
def baseShape : StateFn → List StateFn → List Kind × Nat
  | .lexTop, _ | .lexTopValueEnd, _ | .lexBlockStart, _ | .lexBlockValueEnd, _
  | .lexBlockEnd, _ => ([], 0)
  | .lexKeyStart, st | .lexDubQuotedKey, st | .lexQuotedKey, st | .lexKey, st
  | .lexIncludeStart, st | .lexIncludeQuotedString, st | .lexIncludeDubQuotedString, st
  | .lexIncludeString, st | .lexInclude, st => (frames st, slots st - 1)
  | .lexArrayValue, st | .lexArrayValueEnd, st | .lexArrayEnd, st => (.array :: frames st, slots st)
  | .lexMapKeyStart, st | .lexMapQuotedKey, st | .lexMapDubQuotedKey, st | .lexMapKey, st
  | .lexMapValueEnd, st | .lexMapEnd, st => (.map :: frames st, slots st)
  | .lexMapKeyEnd, st | .lexMapValue, st => (.map :: frames st, slots st + 1)
  | _, st => (frames st, slots st)

def shape : StateFn → List StateFn → List Kind × Nat
  | .lexCommentStart, c :: st | .lexComment, c :: st => baseShape c st
  | .skip s, st => baseShape s st
  | s, st => baseShape s st

def topMap (cs : List Kind) : Nat := if cs.head? = some .array then 0 else 1

def Moves : Option ItemType → List Kind × Nat → List Kind × Nat → Prop
  | some .itemKey, (cs, n), (cs', n') => cs' = cs ∧ n' ≤ n + 1
  | some .itemString, (cs, n), (cs', n') | some .itemBool, (cs, n), (cs', n')
  | some .itemInteger, (cs, n), (cs', n') | some .itemFloat, (cs, n), (cs', n')
  | some .itemDatetime, (cs, n), (cs', n') | some .itemVariable, (cs, n), (cs', n') =>
    cs' = cs ∧ n' + topMap cs ≤ n
  | some .itemArrayStart, (cs, n), (cs', n') => cs' = .array :: cs ∧ n' ≤ n
  | some .itemMapStart, (cs, n), (cs', n') => cs' = .map :: cs ∧ n' ≤ n
  | some .itemArrayEnd, (cs, n), (cs', n') => cs = .array :: cs' ∧ n' + topMap cs' ≤ n
  | some .itemMapEnd, (cs, n), (cs', n') => cs = .map :: cs' ∧ n' + topMap cs' ≤ n
  | some .itemInclude, (cs, n), (cs', n') => cs' = cs ∧ topMap cs = 1 ∧ n' ≤ n
  | _, (cs, n), (cs', n') => cs' = cs ∧ n' ≤ n

theorem Moves.none_refl (sh : List Kind × Nat) : Moves none sh sh := by
  obtain ⟨cs, n⟩ := sh
  exact ⟨rfl, Nat.le_refl n⟩

/-! ## The lexer a step starts from, and the measure a step lowers -/

def StrFn (lx : Lexer) : Prop :=
  lx.stringStateFn = some .lexString ∨ lx.stringStateFn = some .lexDubQuotedString

/-- What a state needs besides its stack: a string state knows where its escapes return, an
escape has read a backslash and `\x` two bytes, and a block has read its `(`. -/
def Facts : StateFn → Lexer → Prop
  | .lexString, lx | .lexDubQuotedString, lx => StrFn lx
  | .lexStringEscape, lx => 1 ≤ lx.pos ∧ StrFn lx
  | .lexStringBinary, lx => 2 ≤ lx.pos ∧ StrFn lx
  | .lexBlock, lx => 1 ≤ lx.start
  | .skip s, lx => Facts s lx.ignore
  | _, _ => True

@[mk_iff]
structure Good (lx : Lexer) (s : StateFn) : Prop where
  panicked : lx.panicked = false
  start_le : lx.start ≤ lx.pos
  pos_le : lx.pos ≤ lx.input.length
  config : Config s lx.stack
  facts : Facts s lx

def rankN : StateFn → Nat
  | .lexMapKey | .lexCommentStart => 6
  | .lexKey | .lexMapKeyEnd | .lexComment => 5
  | .lexKeyEnd | .lexArrayValue | .lexMapValue | .lexIncludeStart => 4
  | .lexConvenientNumber | .lexValue | .lexInclude => 3
  | .lexString | .lexNumberOrDateOrStringOrIP | .lexNegNumber | .lexFloat | .lexIPAddr
  | .lexArrayEnd | .lexMapEnd | .lexIncludeString => 2
  | .lexTopValueEnd | .lexBlockValueEnd | .lexArrayValueEnd | .lexMapValueEnd | .lexTop
  | .lexBlockStart => 1
  | .skip s => rankN s + 1
  | _ => 0

def rankE : StateFn → Nat
  | .lexCommentStart => 6
  | .lexMapKeyEnd | .lexComment => 5
  | .lexArrayValue | .lexMapValue | .lexIncludeStart => 4
  | .lexValue | .lexInclude | .lexStringBinary => 3
  | .lexString | .lexNumberOrDateOrStringOrIP | .lexNegNumber | .lexFloat | .lexIPAddr
  | .lexConvenientNumber | .lexArrayEnd | .lexMapEnd | .lexIncludeString | .lexKeyStart => 2
  | .lexTopValueEnd | .lexKey => 1
  | .skip s => rankE s + 1
  | _ => 0

def measure (lx : Lexer) (s : StateFn) : Nat :=
  8 * (lx.input.length - lx.pos) + (if lx.input.length ≤ lx.pos then rankE s else rankN s) + 1

def Ends (it : Item) : Prop :=
  (it.typ = .itemEOF ∨ it.typ = .itemError) ∧ (it.typ = .itemError → it.val ≠ noStatesToPop)

def Emits (sh sh' : List Kind × Nat) : List Item → Prop
  | [] => Moves none sh sh'
  | [it] => it.typ ≠ .itemEOF ∧ it.typ ≠ .itemError ∧ Moves (some it.typ) sh sh'
  | _ => False

/-- What one call of state `s` on `lx` may do: stop with an item that ends the run, or go on
from a lexer that is good for the next state, with less left to do, after at most one item. -/
def StepOk (lx : Lexer) (s : StateFn) : Lexer × Option StateFn → Prop
  | (lx', none) => lx'.panicked = false ∧ ∃ it, lx'.items = lx.items ++ [it] ∧ Ends it
  | (lx', some s') => Good lx' s' ∧ lx'.input = lx.input ∧ measure lx' s' < measure lx s ∧
      ∃ em, lx'.items = lx.items ++ em ∧ Emits (shape s lx.stack) (shape s' lx'.stack) em

section StepOk

variable {lx lx' : Lexer} {s s' : StateFn}

theorem StepOk_none : StepOk lx s (lx', none) ↔
    lx'.panicked = false ∧ ∃ it, lx'.items = lx.items ++ [it] ∧ Ends it := Iff.rfl

theorem StepOk_some : StepOk lx s (lx', some s') ↔
    Good lx' s' ∧ lx'.input = lx.input ∧ measure lx' s' < measure lx s ∧
      ∃ em, lx'.items = lx.items ++ em ∧ Emits (shape s lx.stack) (shape s' lx'.stack) em := Iff.rfl

end StepOk

theorem StepOk_ite {lx : Lexer} {s : StateFn} {c : Prop} [Decidable c] {a b : Lexer × Option StateFn} :
    StepOk lx s (if c then a else b) = if c then StepOk lx s a else StepOk lx s b :=
  apply_ite _ _ _ _

theorem StepOk.ite {lx : Lexer} {s : StateFn} {c : Prop} [Decidable c] {a b : Lexer × Option StateFn}
    (ha : c → StepOk lx s a) (hb : ¬c → StepOk lx s b) : StepOk lx s (if c then a else b) := by
  by_cases hc : c
  · rw [if_pos hc]
    exact ha hc
  · rw [if_neg hc]
    exact hb hc

/-! ## The stacks a step pops -/

section Stacks

variable {st : List StateFn}

theorem BlockStack.cases_eq (h : BlockStack st) :
    st = [.lexTop] ∨ ∃ st', st = .lexBlockEnd :: st' ∧ BlockStack st' := by
  cases h with
  | top => exact .inl rfl
  | nest hb => exact .inr ⟨_, rfl, hb⟩

theorem ValueStack.cases_eq (h : ValueStack st) :
    st = [.lexTopValueEnd] ∨ (∃ st', st = .lexBlockValueEnd :: st' ∧ BlockStack st') ∨
      (∃ st', st = .lexArrayValueEnd :: st' ∧ ValueStack st') ∨
      ∃ st', st = .lexMapValueEnd :: st' ∧ ValueStack st' := by
  cases h with
  | top => exact .inl rfl
  | block hb => exact .inr (.inl ⟨_, rfl, hb⟩)
  | array hv => exact .inr (.inr (.inl ⟨_, rfl, hv⟩))
  | map hv => exact .inr (.inr (.inr ⟨_, rfl, hv⟩))

theorem IncludeStack.cases_eq (h : IncludeStack st) :
    st = [.lexTopValueEnd] ∨ (∃ st', st = .lexBlockValueEnd :: st' ∧ BlockStack st') ∨
      ∃ st', st = .lexMapValueEnd :: st' ∧ ValueStack st' := by
  rcases h with ⟨hk⟩ | ⟨hv⟩
  · cases hk with
    | top => exact .inl rfl
    | block hb => exact .inr (.inl ⟨_, rfl, hb⟩)
  · exact .inr (.inr ⟨_, rfl, hv⟩)

@[simp] theorem blockStack_nest : BlockStack (.lexBlockEnd :: st) ↔ BlockStack st :=
  ⟨fun h => by cases h; assumption, .nest⟩

@[simp] theorem valueStack_block : ValueStack (.lexBlockValueEnd :: st) ↔ BlockStack st :=
  ⟨fun h => by cases h; assumption, .block⟩

@[simp] theorem valueStack_array : ValueStack (.lexArrayValueEnd :: st) ↔ ValueStack st :=
  ⟨fun h => by cases h; assumption, .array⟩

@[simp] theorem valueStack_map : ValueStack (.lexMapValueEnd :: st) ↔ ValueStack st :=
  ⟨fun h => by cases h; assumption, .map⟩

@[simp] theorem keyStack_block : KeyStack (.lexBlockValueEnd :: st) ↔ BlockStack st :=
  ⟨fun h => by cases h; assumption, .block⟩

@[simp] theorem includeStack_map : IncludeStack (.lexMapValueEnd :: st) ↔ ValueStack st :=
  ⟨fun h => by rcases h with ⟨⟨⟩⟩ | ⟨h⟩; exact h, .map⟩

attribute [simp] BlockStack.top ValueStack.top KeyStack.top

@[simp] theorem includeStack_top : IncludeStack [.lexTopValueEnd] := .key .top

@[simp] theorem includeStack_block : IncludeStack (.lexBlockValueEnd :: st) ↔ BlockStack st :=
  ⟨fun h => by rcases h with ⟨⟨⟩ | ⟨hb⟩⟩ | ⟨⟨⟩⟩; exact hb, fun h => .key (.block h)⟩

theorem KeyStack.valueStack (h : KeyStack st) : ValueStack st := by
  cases h with
  | top => exact .top
  | block hb => exact .block hb

@[simp] theorem KeyStack.frames_eq (h : KeyStack st) : frames st = [] := by
  cases h <;> rfl

@[simp] theorem KeyStack.slots_eq (h : KeyStack st) : slots st = 1 := by
  cases h <;> rfl

theorem BaseConfig.config {s : StateFn} (h : BaseConfig s st) :
    Config s st ∧ shape s st = baseShape s st := by
  cases s <;> simp_all [BaseConfig, Config, shape]

theorem config_comment {s : StateFn} (hs : s = .lexCommentStart ∨ s = .lexComment)
    (h : Config s st) : ∃ c rest, st = c :: rest ∧
      (c = .lexTop ∧ rest = [] ∨ c = .lexBlockStart ∧ BlockStack rest ∨
        c = .lexBlockValueEnd ∧ BlockStack rest ∨ c = .lexArrayValue ∧ ValueStack rest ∨
        c = .lexArrayValueEnd ∧ ValueStack rest ∨ c = .lexMapKeyStart ∧ ValueStack rest ∨
        c = .lexMapValueEnd ∧ ValueStack rest) := by
  rcases hs with rfl | rfl <;>
  · match st with
    | [] => simp [Config, BaseConfig] at h
    | c :: rest =>
      refine ⟨c, rest, rfl, ?_⟩
      cases c <;> simp_all [Config, BaseConfig, commentReturn]

end Stacks

end NatsServer.Conf
