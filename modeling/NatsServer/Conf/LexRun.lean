import NatsServer.Conf.LexSteps

/-!
# A whole run of the lexer

`nextItem` runs states until one leaves an item. From a lexer that is good for its state, with no
item waiting, every run of states ends within the measure: it returns an item that ends the run
(itemEOF, or an error that is no empty pop), or one that does not, from which the lexer is good
again with a smaller measure. The states run before the item move no container, so the item
moves the open containers as the one step that made it does.

`expectItems` is the loop of `expect` in `lex_test.go` without its comparisons: it takes items
until itemEOF or itemError. On any input it returns, and no item it returns is the error of a
pop on an empty stack.
-/

namespace NatsServer.Conf

open NatsServer.Lib

theorem Moves.none_trans {t : Option ItemType} {a b c : List Kind × Nat} (h1 : Moves none a b)
    (h2 : Moves t b c) : Moves t a c := by
  obtain ⟨cs, n⟩ := a
  obtain ⟨cs', n'⟩ := b
  obtain ⟨cs'', n''⟩ := c
  obtain ⟨rfl, hn⟩ := h1
  rcases t with _ | t
  · exact ⟨h2.1, Nat.le_trans h2.2 hn⟩
  · -- the item's move reads the containers the silent one left as they were, and it needs no
    -- more keys than were there before it
    cases t <;> simp only [Moves] at h2 ⊢
    all_goals exact ⟨h2.1, by omega⟩

theorem Facts_congr {l m : Lexer} (hp : m.pos = l.pos) (hs : m.start = l.start)
    (hf : m.stringStateFn = l.stringStateFn) : ∀ s, Facts s m ↔ Facts s l
  | .skip s => Facts_congr (l := l.ignore) (m := m.ignore) hp hp hf s
  | .lexString | .lexDubQuotedString | .lexStringEscape | .lexStringBinary | .lexBlock => by
    simp [Facts, StrFn, hp, hs, hf]
  | .lexTop | .lexTopValueEnd | .lexBlockStart | .lexBlockValueEnd | .lexBlockEnd | .lexKeyStart
  | .lexDubQuotedKey | .lexQuotedKey | .lexIncludeStart | .lexIncludeQuotedString
  | .lexIncludeDubQuotedString | .lexIncludeString | .lexInclude | .lexKey | .lexKeyEnd | .lexValue
  | .lexArrayValue | .lexArrayValueEnd | .lexArrayEnd | .lexMapKeyStart | .lexMapQuotedKey
  | .lexMapDubQuotedKey | .lexMapKey | .lexMapKeyEnd | .lexMapValue | .lexMapValueEnd | .lexMapEnd
  | .lexQuotedString | .lexNumberOrDateOrStringOrIPStart | .lexNumberOrDateOrStringOrIP
  | .lexConvenientNumber | .lexDateAfterYear | .lexNegNumberStart | .lexNegNumber | .lexFloatStart
  | .lexFloat | .lexIPAddr | .lexCommentStart | .lexComment => Iff.rfl

theorem Good.with_state {lx : Lexer} {s : StateFn} (h : Good lx s) (st : Option StateFn) :
    Good { lx with state := st } s :=
  ⟨h.panicked, h.start_le, h.pos_le, h.config,
    (Facts_congr (l := lx) (m := { lx with state := st }) rfl rfl rfl s).mpr h.facts⟩

theorem Good.with_items {lx : Lexer} {s : StateFn} (h : Good lx s) (its : List Item) :
    Good { lx with items := its } s :=
  ⟨h.panicked, h.start_le, h.pos_le, h.config,
    (Facts_congr (l := lx) (m := { lx with items := its }) rfl rfl rfl s).mpr h.facts⟩

structure Live (lx : Lexer) (s : StateFn) : Prop where
  items : lx.items = []
  state : lx.state = some s
  good : Good lx s

/-- What a call of nextItem returns from a live lexer: an item that ends the run, or one that
does not, after which the lexer is live again, on the same input, with less left to do. -/
def NextOk (lx : Lexer) (s : StateFn) (it : Item) (lx' : Lexer) : Prop :=
  (Ends it ∧ lx'.state = none ∧ lx'.items = []) ∨
    ∃ s', Live lx' s' ∧ lx'.input = lx.input ∧ measure lx' s' < measure lx s ∧
      it.typ ≠ .itemEOF ∧ it.typ ≠ .itemError ∧ Moves (some it.typ) (shape s lx.stack) (shape s' lx'.stack)

theorem NextOk.silent {lx lx1 lx' : Lexer} {s s1 : StateFn} {it : Item}
    (h : NextOk lx1 s1 it lx') (hin : lx1.input = lx.input) (hm : measure lx1 s1 < measure lx s)
    (hmv : Moves none (shape s lx.stack) (shape s1 lx1.stack)) : NextOk lx s it lx' := by
  rcases h with hend | ⟨s', hl, hin', hm', ht1, ht2, hmv'⟩
  · exact .inl hend
  · exact .inr ⟨s', hl, hin'.trans hin, Nat.lt_trans hm' hm, ht1, ht2, hmv.none_trans hmv'⟩

section Run

variable (uc : unicode.Tables)

theorem Lexer.nextItem_of_items {lx : Lexer} {it : Item} {rest : List Item} (fuel : Nat)
    (h : lx.items = it :: rest) : lx.nextItem uc fuel = .ok (it, { lx with items := rest }) := by
  unfold Lexer.nextItem
  rw [h]

theorem nextItem_ok : ∀ (fuel : Nat) (lx : Lexer) (s : StateFn), Live lx s →
    measure lx s ≤ fuel → ∃ it lx', lx.nextItem uc fuel = .ok (it, lx') ∧ NextOk lx s it lx'
  | 0, lx, s, _, hf => absurd hf (by simp [measure])
  | fuel + 1, lx, s, ⟨hi, hs, hg⟩, hf => by
    have hstep := runState_ok uc hg
    unfold Lexer.nextItem
    rw [hi, hs]
    dsimp only
    rcases hr : runState uc s lx with ⟨lx1, _ | s'⟩ <;> rw [hr] at hstep
    · -- the state ends the run: its item is the one returned
      obtain ⟨hp1, it, hit, hend⟩ := StepOk_none.mp hstep
      rw [hi, List.nil_append] at hit
      rw [if_neg (by simp [hp1])]
      exact ⟨it, _, Lexer.nextItem_of_items uc fuel (by exact hit), .inl ⟨hend, rfl, rfl⟩⟩
    · obtain ⟨hg1, hin1, hm1, em, hit1, hem⟩ := StepOk_some.mp hstep
      rw [hi, List.nil_append] at hit1
      rw [if_neg (by simp [hg1.panicked])]
      match em, hit1, hem with
      | [], hit1, hem =>
        -- a silent step: the rest of the run is a call of nextItem from the lexer it leaves
        obtain ⟨it, lx', hnext, hok⟩ := nextItem_ok fuel { lx1 with state := some s' } s'
          ⟨hit1, rfl, hg1.with_state _⟩ (by show measure lx1 s' ≤ fuel; omega)
        exact ⟨it, lx', hnext, hok.silent hin1 hm1 hem⟩
      | [it], hit1, hem =>
        -- the step leaves its item, which nextItem returns at once
        exact ⟨it, _, Lexer.nextItem_of_items uc fuel (by exact hit1),
          .inr ⟨s', ⟨rfl, rfl, (hg1.with_state (some s')).with_items []⟩, hin1, hm1, hem.1, hem.2.1,
            hem.2.2⟩⟩
      | _ :: _ :: _, _, hem => exact absurd hem id

/-- The loop of `expect` in `lex_test.go` without its comparisons: the items nextItem returns, up
to the first itemEOF or itemError, which is kept. `n` bounds the items and `fuel` each nextItem. -/
def Lexer.expectItems (fuel : Nat) : Nat → Lexer → Except Err (List Item)
  | 0, _ => .error .outOfFuel
  | n + 1, lx =>
    match lx.nextItem uc fuel with
    | .error e => .error e
    | .ok (it, lx) =>
      if it.typ = .itemEOF ∨ it.typ = .itemError then .ok [it]
      else (Lexer.expectItems fuel n lx).map (it :: ·)

/-- What `expectItems` returns from a live lexer: items that end with itemEOF or itemError, none of
them the error of a pop on an empty stack. -/
def ItemsOk (items : List Item) : Prop :=
  (∀ it ∈ items, it.typ = .itemError → it.val ≠ noStatesToPop) ∧
    ∃ last, items.getLast? = some last ∧ (last.typ = .itemEOF ∨ last.typ = .itemError)

theorem expectItems_ok (fuel : Nat) : ∀ (n : Nat) (lx : Lexer) (s : StateFn), Live lx s →
    measure lx s ≤ n → measure lx s ≤ fuel →
      ∃ items, lx.expectItems uc fuel n = .ok items ∧ ItemsOk items
  | 0, lx, s, _, hn, _ => absurd hn (by simp [measure])
  | n + 1, lx, s, hl, hn, hf => by
    obtain ⟨it, lx', hnext, hok⟩ := nextItem_ok uc fuel lx s hl hf
    rw [Lexer.expectItems, hnext]
    dsimp only
    rcases hok with ⟨⟨htyp, hval⟩, -, -⟩ | ⟨s', hl', -, hm, ht1, ht2, -⟩
    · -- the item ends the run, and the loop with it
      rw [if_pos htyp]
      exact ⟨[it], rfl, by simpa using hval, it, rfl, htyp⟩
    · -- any other item is kept, and the loop goes on from a lexer with less left to do
      rw [if_neg (by simp [ht1, ht2])]
      obtain ⟨items, hitems, hall, last, hlast, hend⟩ :=
        expectItems_ok fuel n lx' s' hl' (by omega) (by omega)
      refine ⟨it :: items, by rw [hitems]; rfl, ?_, last, ?_, hend⟩
      · intro x hx hx'
        rcases List.mem_cons.mp hx with rfl | hx
        · exact absurd hx' ht2
        · exact hall x hx hx'
      · rw [List.getLast?_cons, hlast]
        rfl

theorem lex_live (data : List UInt8) : Live (lex data) .lexTop ∧
    measure (lex data) .lexTop ≤ 8 * data.length + 2 := by
  refine ⟨⟨rfl, rfl, ⟨rfl, Nat.le_refl 0, Nat.zero_le _, rfl, trivial⟩⟩, ?_⟩
  by_cases h : data.length = 0 <;> simp [measure, lex, rankN, rankE, h]

end Run

end NatsServer.Conf
