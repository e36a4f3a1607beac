import NatsServer.Conf.LexSafety

/-!
# Every state function keeps the lexer good

One lemma per state of `lex.go`: from a lexer that is good for the state, the call either stops
with an item that ends the run, or goes on from a lexer that is good for the state it returns,
with a smaller measure and at most one item, which moves the open containers as the parser
expects. `runState_ok` puts them together by the state called.

Each proof follows its state function: the rune read (or the end of the input), then the branches
of the function, then the stack a pop returns to. The lemmas of `LexSafety` compute the fields of
the lexer each branch returns, and what is left is arithmetic on positions and the measure.
-/

namespace NatsServer.Conf

open NatsServer.Lib

section Steps

variable (uc : unicode.Tables) {lx : Lexer}

-- A rune is read only through its lemmas: unfolding `rune`, `advance` or `backup` while a goal is
-- checked would decode UTF-8 over a symbolic input.
attribute [local irreducible] Lexer.rune Lexer.advance Lexer.backup

attribute [local simp] StepOk_none StepOk_some good_iff Config BaseConfig Facts measure lexSkip
  Emits Moves shape baseShape topMap frames slots rankN rankE Ends StrFn StepOk_ite
  Lexer.errorf Lexer.endOfInput Lexer.pop Lexer.next Lexer.peek Lexer.keyCheckKeyword
  eof mapStart mapEnd keySepEqual keySepColon arrayStart arrayEnd arrayValTerm mapValTerm
  commentHashStart commentSlashStart dqStringStart dqStringEnd sqStringStart sqStringEnd optValTerm
  topOptStart topOptValTerm topOptTerm blockStart blockEnd isNumberSuffix isKeySeparator
  isWhitespace isNL unicode.IsSpace unicode.IsDigit commentReturn txt_head? String.utf8EncodeChar
  unexpectedArrayValTerm

theorem lexTop_ok (h : Good lx .lexTop) : StepOk lx .lexTop (lexTop lx) := by
  obtain ⟨hp, hs, hl, hc, -⟩ := h
  simp only [Config, BaseConfig] at hc
  rw [lexTop, Lexer.next]
  dsimp only
  rcases Lexer.end_cases hl with ⟨hlt, hw1, hw⟩ | ⟨he, hr, hw0⟩
  · have hw2 : lx.pos + lx.nextWidth + lx.advance.nextWidth ≤ lx.input.length := by
      simpa using @Lexer.pos_add_nextWidth_le lx.advance (by simpa using hw)
    rw [Lexer.next]
    dsimp only
    (repeat' refine StepOk.ite (fun _ => ?_) fun _ => ?_) <;> simp [hp, hc, Nat.not_le.mpr hlt] <;>
      first | omega | (split_ifs <;> omega)
  · rw [hr]
    simp [hp, hc, he, hw0]
    omega

theorem lexTopValueEnd_ok (h : Good lx .lexTopValueEnd) :
    StepOk lx .lexTopValueEnd (lexTopValueEnd lx) := by
  obtain ⟨hp, hs, hl, hc, -⟩ := h
  simp only [Config, BaseConfig] at hc
  rw [lexTopValueEnd, Lexer.next]
  dsimp only
  rcases Lexer.end_cases hl with ⟨hlt, hw1, hw⟩ | ⟨he, hr, hw0⟩
  · have hw2 : lx.pos + lx.nextWidth + lx.advance.nextWidth ≤ lx.input.length := by
      simpa using @Lexer.pos_add_nextWidth_le lx.advance (by simpa using hw)
    rw [Lexer.next]
    dsimp only
    (repeat' refine StepOk.ite (fun _ => ?_) fun _ => ?_) <;> simp [hp, hc, Nat.not_le.mpr hlt] <;>
      first | omega | (split_ifs <;> omega)
  · rw [hr]
    simp [hp, hc, he, hw0]

theorem lexBlockStart_ok (h : Good lx .lexBlockStart) : StepOk lx .lexBlockStart (lexBlockStart lx) := by
  obtain ⟨hp, hs, hl, hc, -⟩ := h
  simp only [Config, BaseConfig] at hc
  rw [lexBlockStart, Lexer.next]
  dsimp only
  rcases Lexer.end_cases hl with ⟨hlt, hw1, hw⟩ | ⟨he, hr, hw0⟩
  · have hw2 : lx.pos + lx.nextWidth + lx.advance.nextWidth ≤ lx.input.length := by
      simpa using @Lexer.pos_add_nextWidth_le lx.advance (by simpa using hw)
    rw [Lexer.next]
    dsimp only
    -- the end of the block pops to the top or to the block around it
    rcases hc.cases_eq with hst | ⟨st, hst, hb⟩ <;>
    (repeat' refine StepOk.ite (fun _ => ?_) fun _ => ?_) <;> simp [Nat.not_le.mpr hlt, *] <;>
      first | omega | (split_ifs <;> omega)
  · rw [hr]
    simp [hp, he, hw0]
    omega

theorem lexBlockValueEnd_ok (h : Good lx .lexBlockValueEnd) :
    StepOk lx .lexBlockValueEnd (lexBlockValueEnd lx) := by
  obtain ⟨hp, hs, hl, hc, -⟩ := h
  simp only [Config, BaseConfig] at hc
  rw [lexBlockValueEnd, Lexer.next]
  dsimp only
  rcases Lexer.end_cases hl with ⟨hlt, hw1, hw⟩ | ⟨he, hr, hw0⟩
  · have hw2 : lx.pos + lx.nextWidth + lx.advance.nextWidth ≤ lx.input.length := by
      simpa using @Lexer.pos_add_nextWidth_le lx.advance (by simpa using hw)
    rw [Lexer.next]
    dsimp only
    (repeat' refine StepOk.ite (fun _ => ?_) fun _ => ?_) <;> simp [hp, hc, Nat.not_le.mpr hlt] <;>
      first | omega | (split_ifs <;> omega)
  · rw [hr]
    simp [hp, he, hw0]

theorem lexBlockEnd_ok (h : Good lx .lexBlockEnd) : StepOk lx .lexBlockEnd (lexBlockEnd lx) := by
  obtain ⟨hp, hs, hl, hc, -⟩ := h
  simp only [Config, BaseConfig] at hc
  rw [lexBlockEnd, Lexer.next]
  dsimp only
  rcases Lexer.end_cases hl with ⟨hlt, hw1, hw⟩ | ⟨he, hr, hw0⟩
  · have hw2 : lx.pos + lx.nextWidth + lx.advance.nextWidth ≤ lx.input.length := by
      simpa using @Lexer.pos_add_nextWidth_le lx.advance (by simpa using hw)
    rw [Lexer.next]
    dsimp only
    rcases hc.cases_eq with hst | ⟨st, hst, hb⟩ <;>
    (repeat' refine StepOk.ite (fun _ => ?_) fun _ => ?_) <;> simp [Nat.not_le.mpr hlt, *] <;>
      first | omega | (split_ifs <;> omega)
  · rw [hr]
    simp [hp, he, hw0]

theorem lexKeyStart_ok (h : Good lx .lexKeyStart) : StepOk lx .lexKeyStart (lexKeyStart lx) := by
  obtain ⟨hp, hs, hl, hc, -⟩ := h
  simp only [Config, BaseConfig] at hc
  rw [lexKeyStart, Lexer.peek]
  dsimp only
  rcases Lexer.end_cases hl with ⟨hlt, hw1, hw⟩ | ⟨he, hr, hw0⟩
  · (repeat' refine StepOk.ite (fun _ => ?_) fun _ => ?_) <;> simp [hp, hc, Nat.not_le.mpr hlt] <;>
      first | omega | (split_ifs <;> omega)
  · rw [hr]
    simp [hp, hc, he, hw0]

theorem lexDubQuotedKey_ok (h : Good lx .lexDubQuotedKey) :
    StepOk lx .lexDubQuotedKey (lexDubQuotedKey lx) := by
  obtain ⟨hp, hs, hl, hc, -⟩ := h
  simp only [Config, BaseConfig] at hc
  rw [lexDubQuotedKey, Lexer.peek]
  dsimp only
  rcases Lexer.end_cases hl with ⟨hlt, hw1, hw⟩ | ⟨he, hr, hw0⟩
  · (repeat' refine StepOk.ite (fun _ => ?_) fun _ => ?_) <;> simp [hp, hc, Nat.not_le.mpr hlt] <;>
      first | omega | (split_ifs <;> omega)
  · rw [hr]
    simp [hp, he, hw0]
    omega

theorem lexQuotedKey_ok (h : Good lx .lexQuotedKey) : StepOk lx .lexQuotedKey (lexQuotedKey lx) := by
  obtain ⟨hp, hs, hl, hc, -⟩ := h
  simp only [Config, BaseConfig] at hc
  rw [lexQuotedKey, Lexer.peek]
  dsimp only
  rcases Lexer.end_cases hl with ⟨hlt, hw1, hw⟩ | ⟨he, hr, hw0⟩
  · (repeat' refine StepOk.ite (fun _ => ?_) fun _ => ?_) <;> simp [hp, hc, Nat.not_le.mpr hlt] <;>
      first | omega | (split_ifs <;> omega)
  · rw [hr]
    simp [hp, he, hw0]
    omega

theorem lexIncludeStart_ok (h : Good lx .lexIncludeStart) : StepOk lx .lexIncludeStart (lexIncludeStart lx) := by
  obtain ⟨hp, hs, hl, hc, -⟩ := h
  simp only [Config, BaseConfig] at hc
  rw [lexIncludeStart, Lexer.next]
  dsimp only
  rcases Lexer.end_cases hl with ⟨hlt, hw1, hw⟩ | ⟨he, hr, hw0⟩
  · (repeat' refine StepOk.ite (fun _ => ?_) fun _ => ?_) <;> simp [hp, hc, Nat.not_le.mpr hlt] <;>
      omega
  · rw [hr]
    simp [hp, hc, he]
    omega

theorem lexIncludeQuotedString_ok (h : Good lx .lexIncludeQuotedString) : StepOk lx .lexIncludeQuotedString (lexIncludeQuotedString lx) := by
  obtain ⟨hp, hs, hl, hc, -⟩ := h
  simp only [Config, BaseConfig] at hc
  rw [lexIncludeQuotedString, Lexer.next]
  dsimp only
  rcases Lexer.end_cases hl with ⟨hlt, hw1, hw⟩ | ⟨he, hr, hw0⟩
  · rcases hc.cases_eq with hst | ⟨st, hst, hb⟩ | ⟨st, hst, hv⟩ <;>
    (repeat' refine StepOk.ite (fun _ => ?_) fun _ => ?_) <;> simp [Nat.not_le.mpr hlt, *] <;>
      first | omega | (split_ifs <;> omega)
  · rw [hr]
    rcases hc.cases_eq with hst | ⟨st, hst, hb⟩ | ⟨st, hst, hv⟩ <;>
    simp [*]

theorem lexIncludeDubQuotedString_ok (h : Good lx .lexIncludeDubQuotedString) : StepOk lx .lexIncludeDubQuotedString (lexIncludeDubQuotedString lx) := by
  obtain ⟨hp, hs, hl, hc, -⟩ := h
  simp only [Config, BaseConfig] at hc
  rw [lexIncludeDubQuotedString, Lexer.next]
  dsimp only
  rcases Lexer.end_cases hl with ⟨hlt, hw1, hw⟩ | ⟨he, hr, hw0⟩
  · rcases hc.cases_eq with hst | ⟨st, hst, hb⟩ | ⟨st, hst, hv⟩ <;>
    (repeat' refine StepOk.ite (fun _ => ?_) fun _ => ?_) <;> simp [Nat.not_le.mpr hlt, *] <;>
      first | omega | (split_ifs <;> omega)
  · rw [hr]
    rcases hc.cases_eq with hst | ⟨st, hst, hb⟩ | ⟨st, hst, hv⟩ <;>
    simp [*]

theorem lexIncludeString_ok (h : Good lx .lexIncludeString) : StepOk lx .lexIncludeString (lexIncludeString lx) := by
  obtain ⟨hp, hs, hl, hc, -⟩ := h
  simp only [Config, BaseConfig] at hc
  rw [lexIncludeString, Lexer.next]
  dsimp only
  rcases Lexer.end_cases hl with ⟨hlt, hw1, hw⟩ | ⟨he, hr, hw0⟩
  · rcases hc.cases_eq with hst | ⟨st, hst, hb⟩ | ⟨st, hst, hv⟩ <;>
    (repeat' refine StepOk.ite (fun _ => ?_) fun _ => ?_) <;> simp [Nat.not_le.mpr hlt, *] <;>
      first | omega | (split_ifs <;> omega)
  · rw [hr]
    rcases hc.cases_eq with hst | ⟨st, hst, hb⟩ | ⟨st, hst, hv⟩ <;>
    simp [*] <;>
      omega

theorem lexInclude_ok (h : Good lx .lexInclude) : StepOk lx .lexInclude (lexInclude uc lx) := by
  obtain ⟨hp, hs, hl, hc, -⟩ := h
  simp only [Config, BaseConfig] at hc
  rw [lexInclude, Lexer.next]
  dsimp only
  rcases Lexer.end_cases hl with ⟨hlt, hw1, hw⟩ | ⟨he, hr, hw0⟩
  · (repeat' refine StepOk.ite (fun _ => ?_) fun _ => ?_) <;> simp [hp, hc, Nat.not_le.mpr hlt] <;>
      omega
  · rw [hr]
    simp [hp, hc, he]
    omega

theorem lexKey_ok (h : Good lx .lexKey) : StepOk lx .lexKey (lexKey uc lx) := by
  obtain ⟨hp, hs, hl, hc, -⟩ := h
  simp only [Config, BaseConfig] at hc
  rw [lexKey, Lexer.peek]
  dsimp only
  rcases Lexer.end_cases hl with ⟨hlt, hw1, hw⟩ | ⟨he, hr, hw0⟩
  · (repeat' refine StepOk.ite (fun _ => ?_) fun _ => ?_) <;> simp [hp, hc, Nat.not_le.mpr hlt, IncludeStack.key hc] <;>
      first | omega | (split_ifs <;> omega)
  · rw [hr]
    simp [hp, hc, he]
    omega

theorem lexKeyEnd_ok (h : Good lx .lexKeyEnd) : StepOk lx .lexKeyEnd (lexKeyEnd lx) := by
  obtain ⟨hp, hs, hl, hc, -⟩ := h
  simp only [Config, BaseConfig] at hc
  rw [lexKeyEnd, Lexer.next]
  dsimp only
  rcases Lexer.end_cases hl with ⟨hlt, hw1, hw⟩ | ⟨he, hr, hw0⟩
  · (repeat' refine StepOk.ite (fun _ => ?_) fun _ => ?_) <;> simp [hp, hc, Nat.not_le.mpr hlt, hc.valueStack] <;>
      first | omega | (split_ifs <;> omega)
  · rw [hr]
    simp [hp, he, hw0]
    omega

theorem lexValue_ok (h : Good lx .lexValue) : StepOk lx .lexValue (lexValue uc lx) := by
  obtain ⟨hp, hs, hl, hc, -⟩ := h
  simp only [Config, BaseConfig] at hc
  rw [lexValue, Lexer.next]
  dsimp only
  rcases Lexer.end_cases hl with ⟨hlt, hw1, hw⟩ | ⟨he, hr, hw0⟩
  · (repeat' refine StepOk.ite (fun _ => ?_) fun _ => ?_) <;> simp [hp, hc, Nat.not_le.mpr hlt] <;> omega
  · rw [hr]
    simp [hp, hc, he, hw0, isWhitespace, eof, isNL, arrayStart, mapStart, sqStringStart, dqStringStart, blockStart, unicode.IsDigit]
    omega

theorem lexArrayValue_ok (h : Good lx .lexArrayValue) : StepOk lx .lexArrayValue (lexArrayValue lx) := by
  obtain ⟨hp, hs, hl, hc, -⟩ := h
  simp only [Config, BaseConfig] at hc
  rw [lexArrayValue, Lexer.next]
  dsimp only
  rcases Lexer.end_cases hl with ⟨hlt, hw1, hw⟩ | ⟨he, hr, hw0⟩
  · have hw2 : lx.pos + lx.nextWidth + lx.advance.nextWidth ≤ lx.input.length := by
      simpa using @Lexer.pos_add_nextWidth_le lx.advance (by simpa using hw)
    rw [Lexer.next]
    dsimp only
    (repeat' refine StepOk.ite (fun _ => ?_) fun _ => ?_) <;> simp [hp, hc, Nat.not_le.mpr hlt] <;>
      omega
  · rw [hr]
    simp [hp, hc, he]
    omega

theorem lexArrayValueEnd_ok (h : Good lx .lexArrayValueEnd) : StepOk lx .lexArrayValueEnd (lexArrayValueEnd lx) := by
  obtain ⟨hp, hs, hl, hc, -⟩ := h
  simp only [Config, BaseConfig] at hc
  rw [lexArrayValueEnd, Lexer.next]
  dsimp only
  rcases Lexer.end_cases hl with ⟨hlt, hw1, hw⟩ | ⟨he, hr, hw0⟩
  · have hw2 : lx.pos + lx.nextWidth + lx.advance.nextWidth ≤ lx.input.length := by
      simpa using @Lexer.pos_add_nextWidth_le lx.advance (by simpa using hw)
    rw [Lexer.next]
    dsimp only
    (repeat' refine StepOk.ite (fun _ => ?_) fun _ => ?_) <;> simp [hp, hc, Nat.not_le.mpr hlt] <;>
      first | omega | (split_ifs <;> omega)
  · rw [hr]
    simp [hp, he, hw0]

theorem lexArrayEnd_ok (h : Good lx .lexArrayEnd) : StepOk lx .lexArrayEnd (lexArrayEnd lx) := by
  obtain ⟨hp, hs, hl, hc, -⟩ := h
  simp only [Config, BaseConfig] at hc
  rw [lexArrayEnd]
  rcases hc.cases_eq with hst | ⟨st, hst, hb⟩ | ⟨st, hst, hv⟩ | ⟨st, hst, hv⟩ <;>
    simp [*] <;>
    first | omega | (split_ifs <;> omega)

theorem lexMapKeyStart_ok (h : Good lx .lexMapKeyStart) : StepOk lx .lexMapKeyStart (lexMapKeyStart lx) := by
  obtain ⟨hp, hs, hl, hc, -⟩ := h
  simp only [Config, BaseConfig] at hc
  rw [lexMapKeyStart, Lexer.peek]
  dsimp only
  rcases Lexer.end_cases hl with ⟨hlt, hw1, hw⟩ | ⟨he, hr, hw0⟩
  · have hw2 : lx.pos + lx.nextWidth + lx.advance.nextWidth ≤ lx.input.length := by
      simpa using @Lexer.pos_add_nextWidth_le lx.advance (by simpa using hw)
    (repeat' refine StepOk.ite (fun _ => ?_) fun _ => ?_) <;> simp [hp, hc, Nat.not_le.mpr hlt] <;>
      first | omega | (split_ifs <;> omega)
  · rw [hr]
    simp [hp, he, hw0]

theorem lexMapQuotedKey_ok (h : Good lx .lexMapQuotedKey) : StepOk lx .lexMapQuotedKey (lexMapQuotedKey lx) := by
  obtain ⟨hp, hs, hl, hc, -⟩ := h
  simp only [Config, BaseConfig] at hc
  rw [lexMapQuotedKey, Lexer.peek]
  dsimp only
  rcases Lexer.end_cases hl with ⟨hlt, hw1, hw⟩ | ⟨he, hr, hw0⟩
  · (repeat' refine StepOk.ite (fun _ => ?_) fun _ => ?_) <;> simp [hp, hc, Nat.not_le.mpr hlt] <;>
      omega
  · rw [hr]
    simp [hp, he, hw0]

theorem lexMapDubQuotedKey_ok (h : Good lx .lexMapDubQuotedKey) : StepOk lx .lexMapDubQuotedKey (lexMapDubQuotedKey lx) := by
  obtain ⟨hp, hs, hl, hc, -⟩ := h
  simp only [Config, BaseConfig] at hc
  rw [lexMapDubQuotedKey, Lexer.peek]
  dsimp only
  rcases Lexer.end_cases hl with ⟨hlt, hw1, hw⟩ | ⟨he, hr, hw0⟩
  · (repeat' refine StepOk.ite (fun _ => ?_) fun _ => ?_) <;> simp [hp, hc, Nat.not_le.mpr hlt] <;>
      omega
  · rw [hr]
    simp [hp, he, hw0]

theorem lexMapKey_ok (h : Good lx .lexMapKey) : StepOk lx .lexMapKey (lexMapKey uc lx) := by
  obtain ⟨hp, hs, hl, hc, -⟩ := h
  simp only [Config, BaseConfig] at hc
  rw [lexMapKey, Lexer.peek]
  dsimp only
  rcases Lexer.end_cases hl with ⟨hlt, hw1, hw⟩ | ⟨he, hr, hw0⟩
  · (repeat' refine StepOk.ite (fun _ => ?_) fun _ => ?_) <;> simp [hp, hc, Nat.not_le.mpr hlt, IncludeStack.map hc] <;>
      first | omega | (split_ifs <;> omega)
  · rw [hr]
    simp [hp, he, hw0]

theorem lexMapKeyEnd_ok (h : Good lx .lexMapKeyEnd) : StepOk lx .lexMapKeyEnd (lexMapKeyEnd lx) := by
  obtain ⟨hp, hs, hl, hc, -⟩ := h
  simp only [Config, BaseConfig] at hc
  rw [lexMapKeyEnd, Lexer.next]
  dsimp only
  rcases Lexer.end_cases hl with ⟨hlt, hw1, hw⟩ | ⟨he, hr, hw0⟩
  · (repeat' refine StepOk.ite (fun _ => ?_) fun _ => ?_) <;> simp [hp, hc, Nat.not_le.mpr hlt] <;>
      omega
  · rw [hr]
    simp [hp, hc, he]
    omega

theorem lexMapValue_ok (h : Good lx .lexMapValue) : StepOk lx .lexMapValue (lexMapValue lx) := by
  obtain ⟨hp, hs, hl, hc, -⟩ := h
  simp only [Config, BaseConfig] at hc
  rw [lexMapValue, Lexer.next]
  dsimp only
  rcases Lexer.end_cases hl with ⟨hlt, hw1, hw⟩ | ⟨he, hr, hw0⟩
  · (repeat' refine StepOk.ite (fun _ => ?_) fun _ => ?_) <;> simp [hp, hc, Nat.not_le.mpr hlt] <;>
      omega
  · rw [hr]
    simp [hp, hc, he]
    omega

theorem lexMapValueEnd_ok (h : Good lx .lexMapValueEnd) : StepOk lx .lexMapValueEnd (lexMapValueEnd lx) := by
  obtain ⟨hp, hs, hl, hc, -⟩ := h
  simp only [Config, BaseConfig] at hc
  rw [lexMapValueEnd, Lexer.next]
  dsimp only
  rcases Lexer.end_cases hl with ⟨hlt, hw1, hw⟩ | ⟨he, hr, hw0⟩
  · have hw2 : lx.pos + lx.nextWidth + lx.advance.nextWidth ≤ lx.input.length := by
      simpa using @Lexer.pos_add_nextWidth_le lx.advance (by simpa using hw)
    rw [Lexer.next]
    dsimp only
    (repeat' refine StepOk.ite (fun _ => ?_) fun _ => ?_) <;> simp [hp, hc, Nat.not_le.mpr hlt] <;>
      first | omega | (split_ifs <;> omega)
  · rw [hr]
    simp [hp, he, hw0]

theorem lexMapEnd_ok (h : Good lx .lexMapEnd) : StepOk lx .lexMapEnd (lexMapEnd lx) := by
  obtain ⟨hp, hs, hl, hc, -⟩ := h
  simp only [Config, BaseConfig] at hc
  rw [lexMapEnd]
  rcases hc.cases_eq with hst | ⟨st, hst, hb⟩ | ⟨st, hst, hv⟩ | ⟨st, hst, hv⟩ <;>
    simp [*] <;>
    first | omega | (split_ifs <;> omega)

theorem lexQuotedString_ok (h : Good lx .lexQuotedString) : StepOk lx .lexQuotedString (lexQuotedString lx) := by
  obtain ⟨hp, hs, hl, hc, -⟩ := h
  simp only [Config, BaseConfig] at hc
  rw [lexQuotedString, Lexer.next]
  dsimp only
  rcases Lexer.end_cases hl with ⟨hlt, hw1, hw⟩ | ⟨he, hr, hw0⟩
  · rcases hc.cases_eq with hst | ⟨st, hst, hb⟩ | ⟨st, hst, hv⟩ | ⟨st, hst, hv⟩ <;>
    (repeat' refine StepOk.ite (fun _ => ?_) fun _ => ?_) <;> simp [Nat.not_le.mpr hlt, *] <;>
      first | omega | (split_ifs <;> omega)
  · rw [hr]
    rcases hc.cases_eq with hst | ⟨st, hst, hb⟩ | ⟨st, hst, hv⟩ | ⟨st, hst, hv⟩ <;>
    simp [*] <;>
      omega

theorem lexDubQuotedString_ok (h : Good lx .lexDubQuotedString) :
    StepOk lx .lexDubQuotedString (lexDubQuotedString lx) := by
  obtain ⟨hp, hs, hl, hc, hf⟩ := h
  simp only [Config, BaseConfig] at hc
  simp only [Facts, StrFn] at hf
  rw [lexDubQuotedString, Lexer.next]
  dsimp only
  rcases Lexer.end_cases hl with ⟨hlt, hw1, hw⟩ | ⟨he, hr, hw0⟩
  · rcases hc.cases_eq with hst | ⟨st, hst, hb⟩ | ⟨st, hst, hv⟩ | ⟨st, hst, hv⟩ <;>
      (repeat' refine StepOk.ite (fun _ => ?_) fun _ => ?_) <;> simp [Nat.not_le.mpr hlt, *] <;>
      first | omega | (split_ifs <;> omega)
  · rw [hr]
    simp [hp, he, hw0]
    omega

theorem lexString_plain_ok (h : Good lx .lexString)
    (hv : lx.advance.backup.isVariable = (false, lx.advance.backup)) :
    StepOk lx .lexString (lexString uc lx) := by
  obtain ⟨hp, hs, hl, hc, hf⟩ := h
  simp only [Config, BaseConfig] at hc
  simp only [Facts, StrFn] at hf
  rw [lexString, Lexer.next]
  dsimp only
  rw [hv]
  simp only [Bool.false_eq_true, ↓reduceIte]
  rcases Lexer.end_cases hl with ⟨hlt, hw1, hw⟩ | ⟨he, hr, hw0⟩
  · rcases hc.cases_eq with hst | ⟨st, hst, hb⟩ | ⟨st, hst, hv⟩ | ⟨st, hst, hv⟩ <;>
      (repeat' refine StepOk.ite (fun _ => ?_) fun _ => ?_) <;> simp [Nat.not_le.mpr hlt, *] <;>
      first | omega | (split_ifs <;> omega)
  · rw [hr]
    rcases hc.cases_eq with hst | ⟨st, hst, hb⟩ | ⟨st, hst, hv⟩ | ⟨st, hst, hv⟩ <;>
      simp [*] <;>
      omega

theorem lexString_variable_ok (h : Good lx .lexString)
    (hd : lx.advance.backup.input[lx.advance.backup.start]? = some 0x24)
    (hv : lx.advance.backup.isVariable =
      (true, { lx.advance.backup with start := lx.advance.backup.start + 1 })) :
    StepOk lx .lexString (lexString uc lx) := by
  obtain ⟨hp, hs, hl, hc, hf⟩ := h
  simp only [Config, BaseConfig] at hc
  simp only [Facts, StrFn] at hf
  rw [lexString, Lexer.next]
  dsimp only
  rw [hv]
  simp only [↓reduceIte]
  have hd : lx.input[lx.start]? = some 0x24 := by simpa using hd
  rcases Nat.lt_or_eq_of_le hs with hsp | hsp
  · rcases Lexer.end_cases hl with ⟨hlt, hw1, hw⟩ | ⟨he, hr, hw0⟩
    · rcases hc.cases_eq with hst | ⟨st, hst, hb⟩ | ⟨st, hst, hv⟩ | ⟨st, hst, hv⟩ <;>
        (repeat' refine StepOk.ite (fun _ => ?_) fun _ => ?_) <;> simp [Nat.not_le.mpr hlt, *] <;>
        first | omega | (split_ifs <;> omega)
    · rw [hr]
      rcases hc.cases_eq with hst | ⟨st, hst, hb⟩ | ⟨st, hst, hv⟩ | ⟨st, hst, hv⟩ <;>
        simp [*] <;>
        first | omega | (split_ifs <;> omega)
  · have hr : lx.rune = 0x24 := by
      rw [Lexer.rune_of_getElem (hsp ▸ hd) (by decide)]
      rfl
    have hlt := Lexer.pos_lt_of_rune_ne (by rw [hr]; decide)
    have hw := Lexer.pos_add_nextWidth_le hl
    have hw1 := Lexer.nextWidth_pos hlt
    simp [*]
    omega

theorem lexString_ok (h : Good lx .lexString) : StepOk lx .lexString (lexString uc lx) := by
  rcases Lexer.isVariable_cases lx.advance.backup with hv | ⟨hd, hv⟩
  · exact lexString_plain_ok uc h hv
  · exact lexString_variable_ok uc h hd hv

theorem lexBlock_ok (h : Good lx .lexBlock) : StepOk lx .lexBlock (lexBlock lx) := by
  obtain ⟨hp, hs, hl, hc, h1⟩ := h
  simp only [Config, BaseConfig] at hc
  simp only [Facts] at h1
  rw [lexBlock, Lexer.next]
  dsimp only
  rcases Lexer.end_cases hl with ⟨hlt, hw1, hw⟩ | ⟨he, hr, hw0⟩
  · by_cases hbe : lx.rune = blockEnd
    · rw [if_pos hbe, Lexer.next]
      dsimp only
      obtain ⟨hget, hw1⟩ := Lexer.rune_lt (by rw [hbe]; decide) hlt
      -- back over the ')' and the rune before it, which is one byte wide as a ')' follows it
      have hBpos : lx.advance.backup.backup.pos + 1 = lx.pos := by
        rw [Lexer.advance_backup_backup_pos _ (by omega)]
        omega
      have hBpan := Lexer.advance_backup_backup_panicked lx (by omega)
      have hBw : lx.advance.backup.backup.nextWidth = 1 :=
        Lexer.nextWidth_before_ascii (by simp) hBpos hget (by rw [hbe]; decide)
      -- reading that rune again puts the lexer back on the ')'
      have hCw : lx.advance.backup.backup.advance.nextWidth = 1 := by
        rw [@Lexer.nextWidth_eq lx _ (by simp) (by simp; omega), hw1]
      have hw' : lx.pos + 1 + lx.advance.nextWidth ≤ lx.input.length := by
        simpa [hw1] using @Lexer.pos_add_nextWidth_le lx.advance (by simpa using hw)
      by_cases hc1 : lx.advance.backup.backup.rune = '\n'.toNat
      · -- a new line before the ')': read past the ')' and look at what follows it
        rw [if_neg (not_not_intro hc1), Lexer.next]
        dsimp only
        rw [Lexer.next]
        dsimp only
        have hDw : lx.advance.backup.backup.advance.advance.nextWidth = lx.advance.nextWidth :=
          Lexer.nextWidth_eq (by simp) (by simp; omega)
        have hDr : lx.advance.backup.backup.advance.advance.rune = lx.advance.rune :=
          Lexer.rune_eq (by simp) (by simp; omega)
        split_ifs with hc2
        · -- the block ends at a new line or at the end of the input: back over what follows the
          -- ')' twice by its width, emit, and read the ')' again
          have hc2' : lx.advance.rune = 10 ∨ lx.advance.rune = 0 := by simpa [hDr, eof] using hc2
          have hwD : lx.advance.nextWidth ≤ 1 := Lexer.nextWidth_le_one (by omega)
          have hDle : lx.advance.backup.backup.advance.advance.nextWidth ≤
              lx.advance.backup.backup.advance.advance.pos := by
            simp only [Lexer.advance_pos, hDw, hCw, hBw]
            omega
          have hEpos : lx.advance.backup.backup.advance.advance.advance.backup.backup.pos =
              lx.pos + 1 - lx.advance.nextWidth := by
            rw [Lexer.advance_backup_backup_pos _ hDle]
            simp only [Lexer.advance_pos, hDw, hCw, hBw]
            omega
          have hEpan : lx.advance.backup.backup.advance.advance.advance.backup.backup.panicked =
              lx.panicked := by
            rw [Lexer.advance_backup_backup_panicked _ hDle]
            simp [hBpan]
          have hEw : lx.advance.backup.backup.advance.advance.advance.backup.backup.nextWidth =
              lx.advance.nextWidth := by
            rcases Nat.le_one_iff_eq_zero_or_eq_one.mp hwD with h0 | h0
            · have : lx.input.length ≤ lx.pos + 1 := by
                by_contra hn
                have := @Lexer.nextWidth_pos lx.advance (by simp; omega)
                omega
              rw [@Lexer.nextWidth_eq lx.advance _ (by simp) (by simp; omega)]
            · rw [@Lexer.nextWidth_eq lx _ (by simp) (by omega), hw1, h0]
          rcases hc.cases_eq with hst | ⟨st, hst, hv⟩ | ⟨st, hst, hv⟩ | ⟨st, hst, hv⟩ <;>
            simp [*] <;>
            first | omega | (split_ifs <;> omega)
        · simp [hp, hc, hBpan, hBw, hCw, h1, Nat.not_le.mpr hlt]
          omega
      · -- no new line before the ')': it is text of the block
        rw [if_pos hc1, Lexer.next]
        simp [hp, hc, hBpan, hBw, hCw, h1, Nat.not_le.mpr hlt]
        omega
    · rw [if_neg hbe]
      (repeat' refine StepOk.ite (fun _ => ?_) fun _ => ?_) <;> simp [hp, hc, h1, Nat.not_le.mpr hlt]
      omega
  · rw [hr]
    simp [hp, he, hw0]

theorem lexStringEscape_ok (h : Good lx .lexStringEscape) :
    StepOk lx .lexStringEscape (lexStringEscape lx) := by
  obtain ⟨hp, hs, hl, hc, hf⟩ := h
  simp only [Config, BaseConfig] at hc
  simp only [Facts, StrFn] at hf
  rw [lexStringEscape, Lexer.next]
  dsimp only
  rcases Lexer.end_cases hl with ⟨hlt, hw1, hw⟩ | ⟨he, hr, hw0⟩
  · rcases hf.2 with hsf | hsf <;>
      (repeat' refine StepOk.ite (fun _ => ?_) fun _ => ?_) <;> simp [Lexer.addStringPart, Nat.not_le.mpr hlt, *] <;>
      first | omega | (split_ifs <;> omega)
  · rw [hr]
    simp [hp, he, hw0]

theorem lexStringBinary_ok (h : Good lx .lexStringBinary) :
    StepOk lx .lexStringBinary (lexStringBinary lx) := by
  obtain ⟨hp, hs, hl, hc, h2, hsf⟩ := h
  simp only [Config, BaseConfig] at hc
  have hw := Lexer.pos_add_nextWidth_le hl
  have hw2 : lx.pos + lx.nextWidth + lx.advance.nextWidth ≤ lx.input.length := by
    simpa using @Lexer.pos_add_nextWidth_le lx.advance (by simpa using hw)
  rw [lexStringBinary, Lexer.next]
  dsimp only
  rw [Lexer.next]
  dsimp only
  -- the two bytes of the escape are in the input: the `\x` before them is
  rw [if_pos (show 2 ≤ lx.advance.advance.pos by simp; omega)]
  rcases Lexer.end_cases hl with ⟨hlt, hw1, -⟩ | ⟨he, hr, hw0⟩
  · rcases hsf with hsf | hsf <;>
      (repeat' refine StepOk.ite (fun _ => ?_) fun _ => ?_) <;> (try split) <;> simp [Lexer.addStringPart, Nat.not_le.mpr hlt, *] <;>
      omega
  · rw [hr]
    rcases hsf with hsf | hsf <;>
      (repeat' refine StepOk.ite (fun _ => ?_) fun _ => ?_) <;> (try split) <;> simp [Lexer.addStringPart, *] <;>
      omega

theorem lexNumberOrDateOrStringOrIPStart_ok (h : Good lx .lexNumberOrDateOrStringOrIPStart) : StepOk lx .lexNumberOrDateOrStringOrIPStart (lexNumberOrDateOrStringOrIPStart uc lx) := by
  obtain ⟨hp, hs, hl, hc, -⟩ := h
  simp only [Config, BaseConfig] at hc
  rw [lexNumberOrDateOrStringOrIPStart, Lexer.next]
  dsimp only
  rcases Lexer.end_cases hl with ⟨hlt, hw1, hw⟩ | ⟨he, hr, hw0⟩
  · (repeat' refine StepOk.ite (fun _ => ?_) fun _ => ?_) <;> simp [hp, hc, Nat.not_le.mpr hlt]
    omega
  · rw [hr]
    simp [hp, he, hw0]

theorem lexNumberOrDateOrStringOrIP_ok (h : Good lx .lexNumberOrDateOrStringOrIP) : StepOk lx .lexNumberOrDateOrStringOrIP (lexNumberOrDateOrStringOrIP uc lx) := by
  obtain ⟨hp, hs, hl, hc, -⟩ := h
  simp only [Config, BaseConfig] at hc
  rw [lexNumberOrDateOrStringOrIP, Lexer.next]
  dsimp only
  rcases Lexer.end_cases hl with ⟨hlt, hw1, hw⟩ | ⟨he, hr, hw0⟩
  · rcases hc.cases_eq with hst | ⟨st, hst, hb⟩ | ⟨st, hst, hv⟩ | ⟨st, hst, hv⟩ <;>
    (repeat' refine StepOk.ite (fun _ => ?_) fun _ => ?_) <;> simp [Nat.not_le.mpr hlt, *] <;>
      first | omega | (split_ifs <;> omega)
  · rw [hr]
    rcases hc.cases_eq with hst | ⟨st, hst, hb⟩ | ⟨st, hst, hv⟩ | ⟨st, hst, hv⟩ <;>
    simp [*] <;>
      omega

theorem lexConvenientNumber_ok (h : Good lx .lexConvenientNumber) : StepOk lx .lexConvenientNumber (lexConvenientNumber uc lx) := by
  obtain ⟨hp, hs, hl, hc, -⟩ := h
  simp only [Config, BaseConfig] at hc
  rw [lexConvenientNumber, Lexer.next]
  dsimp only
  rcases Lexer.end_cases hl with ⟨hlt, hw1, hw⟩ | ⟨he, hr, hw0⟩
  · rcases hc.cases_eq with hst | ⟨st, hst, hb⟩ | ⟨st, hst, hv⟩ | ⟨st, hst, hv⟩ <;>
    (repeat' refine StepOk.ite (fun _ => ?_) fun _ => ?_) <;> simp [Nat.not_le.mpr hlt, *] <;>
      first | omega | (split_ifs <;> omega)
  · rw [hr]
    rcases hc.cases_eq with hst | ⟨st, hst, hb⟩ | ⟨st, hst, hv⟩ | ⟨st, hst, hv⟩ <;>
    simp [*] <;>
      omega

theorem lexNegNumberStart_ok (h : Good lx .lexNegNumberStart) : StepOk lx .lexNegNumberStart (lexNegNumberStart uc lx) := by
  obtain ⟨hp, hs, hl, hc, -⟩ := h
  simp only [Config, BaseConfig] at hc
  rw [lexNegNumberStart, Lexer.next]
  dsimp only
  rcases Lexer.end_cases hl with ⟨hlt, hw1, hw⟩ | ⟨he, hr, hw0⟩
  · (repeat' refine StepOk.ite (fun _ => ?_) fun _ => ?_) <;> simp [hp, hc, Nat.not_le.mpr hlt]
    omega
  · rw [hr]
    simp [hp, he, hw0]

theorem lexNegNumber_ok (h : Good lx .lexNegNumber) : StepOk lx .lexNegNumber (lexNegNumber uc lx) := by
  obtain ⟨hp, hs, hl, hc, -⟩ := h
  simp only [Config, BaseConfig] at hc
  rw [lexNegNumber, Lexer.next]
  dsimp only
  rcases Lexer.end_cases hl with ⟨hlt, hw1, hw⟩ | ⟨he, hr, hw0⟩
  · rcases hc.cases_eq with hst | ⟨st, hst, hb⟩ | ⟨st, hst, hv⟩ | ⟨st, hst, hv⟩ <;>
    (repeat' refine StepOk.ite (fun _ => ?_) fun _ => ?_) <;> simp [Nat.not_le.mpr hlt, *] <;>
      first | omega | (split_ifs <;> omega)
  · rw [hr]
    rcases hc.cases_eq with hst | ⟨st, hst, hb⟩ | ⟨st, hst, hv⟩ | ⟨st, hst, hv⟩ <;>
    simp [*] <;>
      omega

theorem lexFloatStart_ok (h : Good lx .lexFloatStart) : StepOk lx .lexFloatStart (lexFloatStart uc lx) := by
  obtain ⟨hp, hs, hl, hc, -⟩ := h
  simp only [Config, BaseConfig] at hc
  rw [lexFloatStart, Lexer.next]
  dsimp only
  rcases Lexer.end_cases hl with ⟨hlt, hw1, hw⟩ | ⟨he, hr, hw0⟩
  · (repeat' refine StepOk.ite (fun _ => ?_) fun _ => ?_) <;> simp [hp, hc, Nat.not_le.mpr hlt]
    omega
  · rw [hr]
    simp [hp, he, hw0]

theorem lexFloat_ok (h : Good lx .lexFloat) : StepOk lx .lexFloat (lexFloat uc lx) := by
  obtain ⟨hp, hs, hl, hc, -⟩ := h
  simp only [Config, BaseConfig] at hc
  rw [lexFloat, Lexer.next]
  dsimp only
  rcases Lexer.end_cases hl with ⟨hlt, hw1, hw⟩ | ⟨he, hr, hw0⟩
  · rcases hc.cases_eq with hst | ⟨st, hst, hb⟩ | ⟨st, hst, hv⟩ | ⟨st, hst, hv⟩ <;>
    (repeat' refine StepOk.ite (fun _ => ?_) fun _ => ?_) <;> simp [Nat.not_le.mpr hlt, *] <;>
      omega
  · rw [hr]
    rcases hc.cases_eq with hst | ⟨st, hst, hb⟩ | ⟨st, hst, hv⟩ | ⟨st, hst, hv⟩ <;>
    simp [*] <;>
      omega

theorem lexIPAddr_ok (h : Good lx .lexIPAddr) : StepOk lx .lexIPAddr (lexIPAddr uc lx) := by
  obtain ⟨hp, hs, hl, hc, -⟩ := h
  simp only [Config, BaseConfig] at hc
  rw [lexIPAddr, Lexer.next]
  dsimp only
  rcases Lexer.end_cases hl with ⟨hlt, hw1, hw⟩ | ⟨he, hr, hw0⟩
  · rcases hc.cases_eq with hst | ⟨st, hst, hb⟩ | ⟨st, hst, hv⟩ | ⟨st, hst, hv⟩ <;>
    (repeat' refine StepOk.ite (fun _ => ?_) fun _ => ?_) <;> simp [Nat.not_le.mpr hlt, *] <;>
      omega
  · rw [hr]
    rcases hc.cases_eq with hst | ⟨st, hst, hb⟩ | ⟨st, hst, hv⟩ | ⟨st, hst, hv⟩ <;>
    simp [*] <;>
      omega

theorem lexCommentStart_ok (h : Good lx .lexCommentStart) :
    StepOk lx .lexCommentStart (lexCommentStart lx) := by
  obtain ⟨hp, hs, hl, hc, -⟩ := h
  obtain ⟨c, rest, hst, hcr⟩ := config_comment (.inl rfl) hc
  rw [lexCommentStart]
  rcases hcr with ⟨rfl, hb⟩ | ⟨rfl, hb⟩ | ⟨rfl, hb⟩ | ⟨rfl, hb⟩ | ⟨rfl, hb⟩ | ⟨rfl, hb⟩ | ⟨rfl, hb⟩ <;>
    simp [*]

theorem lexComment_ok (h : Good lx .lexComment) : StepOk lx .lexComment (lexComment lx) := by
  obtain ⟨hp, hs, hl, hc, -⟩ := h
  obtain ⟨c, rest, hst, hcr⟩ := config_comment (.inr rfl) hc
  rw [lexComment, Lexer.peek]
  dsimp only
  rcases Lexer.end_cases hl with ⟨hlt, hw1, hw⟩ | ⟨he, hr, hw0⟩
  · rcases hcr with ⟨rfl, hb⟩ | ⟨rfl, hb⟩ | ⟨rfl, hb⟩ | ⟨rfl, hb⟩ | ⟨rfl, hb⟩ | ⟨rfl, hb⟩ | ⟨rfl, hb⟩ <;>
      (repeat' refine StepOk.ite (fun _ => ?_) fun _ => ?_) <;> simp [Nat.not_le.mpr hlt, *] <;>
      omega
  · rw [hr]
    rcases hcr with ⟨rfl, hb⟩ | ⟨rfl, hb⟩ | ⟨rfl, hb⟩ | ⟨rfl, hb⟩ | ⟨rfl, hb⟩ | ⟨rfl, hb⟩ | ⟨rfl, hb⟩ <;>
      simp [*] <;>
      omega

structure Lexer.Follows (lx0 lx : Lexer) : Prop where
  panicked : lx.panicked = false
  input : lx.input = lx0.input
  start : lx.start = lx0.start
  items : lx.items = lx0.items
  stack : lx.stack = lx0.stack
  pos_ge : lx0.pos ≤ lx.pos
  pos_le : lx.pos ≤ lx.input.length

theorem Lexer.Follows.advance {lx0 : Lexer} (h : lx0.Follows lx) : lx0.Follows lx.advance where
  panicked := by simp [h.panicked]
  input := by simp [h.input]
  start := by simp [h.start]
  items := by simp [h.items]
  stack := by simp [h.stack]
  pos_ge := by have := h.pos_ge; simp; omega
  pos_le := by simpa using Lexer.pos_add_nextWidth_le h.pos_le

theorem lexDateAfterYearLoop_ok {lx0 : Lexer} (h0 : Good lx0 .lexDateAfterYear) :
    ∀ (fs : List Nat) (lx : Lexer), (∀ f ∈ fs, f ≠ eof) → lx0.Follows lx →
      (fs = [] → lx0.pos < lx.pos) → StepOk lx0 .lexDateAfterYear (lexDateAfterYearLoop uc fs lx) := by
  intro fs
  induction fs with
  | nil =>
    intro lx _ hf hlt
    have hlt := hlt rfl
    obtain ⟨hp, hi, hs, hit, hst, hge, hle⟩ := hf
    obtain ⟨hp0, hs0, hl0, hc0, -⟩ := h0
    simp only [Config, BaseConfig] at hc0
    rw [hi] at hle
    rw [lexDateAfterYearLoop]
    rcases hc0.cases_eq with hst0 | ⟨st, hst0, hv⟩ | ⟨st, hst0, hv⟩ | ⟨st, hst0, hv⟩ <;>
      simp [*] <;>
      first | omega | (split_ifs <;> omega)
  | cons f fs ih =>
    intro lx hfs hf _
    have hf0 : f ≠ eof := hfs f (by simp)
    have ih' := (ih · (fun g hg => hfs g (by simp [hg])))
    -- a rune that is no end of input moves the lexer past where the loop started
    have hmove (hr : lx.rune ≠ eof) : lx0.pos < lx.advance.pos := by
      have := Lexer.nextWidth_pos (Lexer.pos_lt_of_rune_ne hr)
      have := hf.pos_ge
      simp
      omega
    rw [lexDateAfterYearLoop, Lexer.next]
    dsimp only
    split_ifs with h1 h2 h3
    · simp [hf.panicked, hf.items]
    · refine ih' _ hf.advance fun _ => hmove fun hr => ?_
      simp [hr] at h2
    · simp [hf.panicked, hf.items]
    · exact ih' _ hf.advance fun _ => hmove fun hr => hf0 (by simp_all)

theorem lexDateAfterYear_ok (h : Good lx .lexDateAfterYear) :
    StepOk lx .lexDateAfterYear (lexDateAfterYear uc lx) :=
  lexDateAfterYearLoop_ok uc h dateFormat lx (by decide)
    ⟨h.panicked, rfl, rfl, rfl, rfl, Nat.le_refl _, h.pos_le⟩ (by simp [dateFormat])

theorem skip_ok {s : StateFn} (h : Good lx (.skip s)) : StepOk lx (.skip s) (lx.ignore, some s) := by
  obtain ⟨hp, -, hl, hc, hf⟩ := h
  obtain ⟨hcs, hsh⟩ := BaseConfig.config (s := s) hc
  refine StepOk_some.mpr ⟨⟨hp, Nat.le_refl _, hl, hcs, hf⟩, rfl, ?_, [], by simp, ?_⟩
  · by_cases hend : lx.input.length ≤ lx.pos <;> simp [measure, hend, rankN, rankE]
  · show Moves none (baseShape s lx.stack) (shape s lx.stack)
    rw [hsh]
    exact Moves.none_refl _

theorem runState_ok {s : StateFn} (h : Good lx s) : StepOk lx s (runState uc s lx) := by
  cases s with
  | lexTop => exact lexTop_ok h
  | lexTopValueEnd => exact lexTopValueEnd_ok h
  | lexBlockStart => exact lexBlockStart_ok h
  | lexBlockValueEnd => exact lexBlockValueEnd_ok h
  | lexBlockEnd => exact lexBlockEnd_ok h
  | lexKeyStart => exact lexKeyStart_ok h
  | lexDubQuotedKey => exact lexDubQuotedKey_ok h
  | lexQuotedKey => exact lexQuotedKey_ok h
  | lexIncludeStart => exact lexIncludeStart_ok h
  | lexIncludeQuotedString => exact lexIncludeQuotedString_ok h
  | lexIncludeDubQuotedString => exact lexIncludeDubQuotedString_ok h
  | lexIncludeString => exact lexIncludeString_ok h
  | lexInclude => exact lexInclude_ok uc h
  | lexKey => exact lexKey_ok uc h
  | lexKeyEnd => exact lexKeyEnd_ok h
  | lexValue => exact lexValue_ok uc h
  | lexArrayValue => exact lexArrayValue_ok h
  | lexArrayValueEnd => exact lexArrayValueEnd_ok h
  | lexArrayEnd => exact lexArrayEnd_ok h
  | lexMapKeyStart => exact lexMapKeyStart_ok h
  | lexMapQuotedKey => exact lexMapQuotedKey_ok h
  | lexMapDubQuotedKey => exact lexMapDubQuotedKey_ok h
  | lexMapKey => exact lexMapKey_ok uc h
  | lexMapKeyEnd => exact lexMapKeyEnd_ok h
  | lexMapValue => exact lexMapValue_ok h
  | lexMapValueEnd => exact lexMapValueEnd_ok h
  | lexMapEnd => exact lexMapEnd_ok h
  | lexQuotedString => exact lexQuotedString_ok h
  | lexDubQuotedString => exact lexDubQuotedString_ok h
  | lexString => exact lexString_ok uc h
  | lexBlock => exact lexBlock_ok h
  | lexStringEscape => exact lexStringEscape_ok h
  | lexStringBinary => exact lexStringBinary_ok h
  | lexNumberOrDateOrStringOrIPStart => exact lexNumberOrDateOrStringOrIPStart_ok uc h
  | lexNumberOrDateOrStringOrIP => exact lexNumberOrDateOrStringOrIP_ok uc h
  | lexConvenientNumber => exact lexConvenientNumber_ok uc h
  | lexDateAfterYear => exact lexDateAfterYear_ok uc h
  | lexNegNumberStart => exact lexNegNumberStart_ok uc h
  | lexNegNumber => exact lexNegNumber_ok uc h
  | lexFloatStart => exact lexFloatStart_ok uc h
  | lexFloat => exact lexFloat_ok uc h
  | lexIPAddr => exact lexIPAddr_ok uc h
  | lexCommentStart => exact lexCommentStart_ok h
  | lexComment => exact lexComment_ok h
  | skip s => exact skip_ok h

end Steps

end NatsServer.Conf
