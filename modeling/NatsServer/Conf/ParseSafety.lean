import NatsServer.Conf.LexRun
import NatsServer.Conf.Parse
import NatsServer.Lib.Within
import Mathlib.Data.Finset.Card
import Mathlib.Algebra.Order.BigOperators.Group.List
import Mathlib.Algebra.Order.Group.Nat

/-!
# The parser never panics

The parser keeps a context for each container the lexer has open, over the mapping at the
bottom, and at least as many keys as the lexer may still set values for (`PInv`). Each item moves
the lexer's containers as `Moves` says, and `processItem` moves the parser's stacks the same way,
so no pop finds its stack empty: `processItem_keeps` is the step, `parseLoop_safe` the run.

A variable whose value is read from the environment is parsed by a nested parser, one unit of
fuel lower, with its name added to the references; a name already there is a cycle, reported
as an error. The names of the environment not yet referenced bound how deep that goes, and
`parseFuel` pays for it (`parse_safe`).
-/

namespace NatsServer.Conf

open NatsServer.Lib

def Err.Returned : Err → Prop
  | .error _ => True
  | _ => False

def Safe {α : Type} (r : Except Err α) : Prop := Within Err.Returned (fun _ => True) r

def Ctx.kind : Ctx → Kind
  | .map _ => .map
  | .array _ => .array

def Value.IsToken : Value → Prop
  | .token .. => True
  | _ => False

/-- The parser between two items: a context for each container open in the lexer, over the
mapping at the bottom; at least the keys the lexer may still set values for; and in pedantic mode
an item for each key. -/
structure PInv (p : Parser) (sh : List Kind × Nat) : Prop where
  ctxs : p.ctxs.map Ctx.kind = sh.1 ++ [.map]
  keys : sh.2 ≤ p.keys.length
  ikeys : p.pedantic = true → p.ikeys.length = p.keys.length

/-- What a step of the parser leaves of `p`: the stacks for the lexer's containers `sh`, and the
lexer, the mode and the file as they were. -/
def Keeps (p : Parser) (sh : List Kind × Nat) (p' : Parser) : Prop :=
  PInv p' sh ∧ p'.lx = p.lx ∧ p'.pedantic = p.pedantic ∧ p'.fp = p.fp

section Stacks

variable {p : Parser} {cs : List Kind} {n n' : Nat}

theorem topMap_of_ctxs {c : Ctx} {rest : List Ctx} (h : (c :: rest).map Ctx.kind = cs ++ [.map]) :
    topMap cs = if c.kind = .array then 0 else 1 := by
  cases cs with
  | nil =>
    obtain ⟨hc, -⟩ := List.cons.inj h
    simp [topMap, hc]
  | cons k cs =>
    obtain ⟨hc, -⟩ := List.cons.inj h
    simp [topMap, hc]

theorem setValue_keeps {v : Value} (h : PInv p (cs, n)) (hn : n' + topMap cs ≤ n)
    (hv : p.pedantic = true → v.IsToken) : Within Err.Returned (Keeps p (cs, n')) (p.setValue v) := by
  obtain ⟨hcs, hk, hik⟩ := h
  unfold Parser.setValue
  match hc : p.ctxs, hcs with
  | [], hcs => simp at hcs
  | .array vs :: rest, hcs =>
    have ht := topMap_of_ctxs hcs
    simp only [Ctx.kind, ↓reduceIte] at ht
    refine ⟨⟨by simpa [Ctx.kind] using hcs, by simp at hk ⊢; omega, hik⟩, rfl, rfl, rfl⟩
  | .map m :: rest, hcs =>
    have ht := topMap_of_ctxs hcs
    simp only [Ctx.kind, reduceCtorEq, ↓reduceIte] at ht
    obtain ⟨k, ks, hks⟩ : ∃ k ks, p.keys = k :: ks :=
      List.exists_cons_of_ne_nil (by intro he; rw [he] at hk; simp at hk; omega)
    have hlen : n' ≤ ks.length := by rw [hks] at hk; simp [ht] at hn hk; omega
    simp only [Parser.popKey, hks, bind, Except.bind]
    by_cases hped : p.pedantic = true
    · -- a token: its key's item is on top of the items, as many as the keys
      obtain ⟨ik, iks, hiks⟩ : ∃ ik iks, p.ikeys = ik :: iks :=
        List.exists_cons_of_ne_nil (by intro he; have := hik hped; rw [he, hks] at this; simp at this)
      have hil : iks.length = ks.length := by have := hik hped; rw [hiks, hks] at this; simpa using this
      cases v
      case token it w used file =>
        rw [if_pos hped]
        simp only [Parser.popItemKey, hiks]
        exact ⟨⟨by simpa [Ctx.kind] using hcs, hlen, fun _ => hil⟩, rfl, rfl, rfl⟩
      all_goals exact absurd (hv hped) id
    · rw [if_neg hped]
      exact ⟨⟨by simpa [Ctx.kind] using hcs, hlen, fun h => absurd h hped⟩, rfl, rfl, rfl⟩

theorem Keeps.trans {p1 p2 p3 : Parser} {sh sh' : List Kind × Nat} (h1 : Keeps p1 sh p2)
    (h2 : Keeps p2 sh' p3) : Keeps p1 sh' p3 :=
  ⟨h2.1, h2.2.1.trans h1.2.1, h2.2.2.1.trans h1.2.2.1, h2.2.2.2.trans h1.2.2.2⟩

theorem Keeps.refl (h : PInv p (cs, n)) (hn : n' ≤ n) : Keeps p (cs, n') p :=
  ⟨⟨h.ctxs, Nat.le_trans hn h.keys, h.ikeys⟩, rfl, rfl, rfl⟩

theorem pushContext_keeps (h : PInv p (cs, n)) (c : Ctx) (hn : n' ≤ n) :
    Keeps p (c.kind :: cs, n') (p.pushContext c) :=
  ⟨⟨by simp [Parser.pushContext, h.ctxs], Nat.le_trans hn h.keys, h.ikeys⟩, rfl, rfl, rfl⟩

theorem popContext_keeps {k : Kind} (h : PInv p (k :: cs, n)) :
    ∃ p' c, p.popContext = .ok (p', c) ∧ c.kind = k ∧ Keeps p (cs, n) p' := by
  obtain ⟨hcs, hk, hik⟩ := h
  match hc : p.ctxs, hcs with
  | c :: c' :: rest, hcs =>
    simp only [List.map_cons, List.cons_append, List.cons.injEq] at hcs
    exact ⟨{ p with ctxs := c' :: rest }, c, by simp [Parser.popContext, hc], hcs.1,
      ⟨by simpa using hcs.2, hk, hik⟩, rfl, rfl, rfl⟩
  | [c], hcs => simp at hcs
  | [], hcs => simp at hcs

theorem pushKey_keeps (h : PInv p (cs, n)) (it : Item) (hn : n' ≤ n + 1) :
    Keeps p (cs, n') (if p.pedantic then (p.pushKey it.val).pushItemKey it else p.pushKey it.val) := by
  obtain ⟨hcs, hk, hik⟩ := h
  split_ifs with hped
  · exact ⟨⟨hcs, by simp [Parser.pushKey, Parser.pushItemKey]; omega,
      fun _ => by simp [Parser.pushKey, Parser.pushItemKey, hik hped]⟩, rfl, rfl, rfl⟩
  · exact ⟨⟨hcs, by simp [Parser.pushKey]; omega, fun h => absurd h hped⟩, rfl, rfl, rfl⟩

theorem tokenSet_keeps {it : Item} {v : Value} {fp : List UInt8} (h : PInv p (cs, n))
    (hn : n' + topMap cs ≤ n) : Within Err.Returned (Keeps p (cs, n'))
      (if p.pedantic then p.setValue (.token it v false fp) else p.setValue v) := by
  split_ifs with hped
  · exact setValue_keeps h hn fun _ => trivial
  · exact setValue_keeps h hn fun h => absurd h hped

theorem includeStep_keeps (h : PInv p (cs, n)) (htop : topMap cs = 1) (k : List UInt8) (v : Value) :
    Within Err.Returned (Keeps p (cs, n)) ((p.pushIncludedKey k v).setValue v) := by
  obtain ⟨hcs, hk, hik⟩ := h
  -- a key is taken: the top context is a map
  obtain ⟨m, rest, hc⟩ : ∃ m rest, p.ctxs = .map m :: rest := by
    match hc : p.ctxs, hcs with
    | [], hcs => simp at hcs
    | .array vs :: rest, hcs =>
      have := topMap_of_ctxs hcs
      simp [Ctx.kind, htop] at this
    | .map m :: rest, _ => exact ⟨m, rest, rfl⟩
  unfold Parser.pushIncludedKey Parser.setValue
  have hstay (m' : List (List UInt8 × Value)) :
      (Ctx.map m' :: rest).map Ctx.kind = cs ++ [.map] := by simpa [hc, Ctx.kind] using hcs
  by_cases hped : p.pedantic = true
  · cases v
    case token it w used file =>
      simp [Parser.pushKey, Parser.pushItemKey, Parser.popKey, Parser.popItemKey, hc, hped, bind,
        Except.bind, Keeps]
      exact ⟨hstay _, hk, fun _ => hik hped⟩
    all_goals
      simp [Parser.pushKey, Parser.popKey, hc, hped, bind, Except.bind, Keeps]
      exact ⟨hstay _, hk, fun _ => hik hped⟩
  · simp [Parser.pushKey, Parser.popKey, hc, hped, bind, Except.bind, Keeps]
    exact ⟨hstay _, hk, by simp⟩

theorem markUsed_kinds (key : List UInt8) :
    ∀ (i : Nat) (ctxs : List Ctx), (markUsed key i ctxs).map Ctx.kind = ctxs.map Ctx.kind
  | 0, .map m :: cs => by
    simp only [markUsed]
    split <;> rfl
  | i + 1, c :: cs => by simp [markUsed, markUsed_kinds key i cs]
  | 0, .array _ :: _ => rfl
  | i, [] => by cases i <;> rfl

theorem PInv.with_lx {sh : List Kind × Nat} (h : PInv p sh) (lx : Lexer) : PInv { p with lx } sh :=
  ⟨h.ctxs, h.keys, h.ikeys⟩

theorem PInv.markUsed {sh : List Kind × Nat} (h : PInv p sh) (key : List UInt8) (i : Nat) :
    PInv { p with ctxs := markUsed key i p.ctxs } sh :=
  ⟨by simpa [markUsed_kinds] using h.ctxs, h.keys, h.ikeys⟩

end Stacks

section Items

variable (uc : unicode.Tables) (env : List (List UInt8 × List UInt8))
  (parseFile : Bool → List UInt8 → List UInt8 → Except Err (List (List UInt8 × Value)))

def NestedOk (nested : List (List UInt8) → List UInt8 → Except Err Parser)
    (refs : List (List UInt8)) : Prop :=
  ∀ name v, lookupEnv env name = some v → name ∉ refs → Safe (nested (name :: refs) (pkey ++ txt "=" ++ v))

theorem integerValue_safe (val : List UInt8) : Safe (integerValue uc val) := by
  unfold integerValue
  dsimp only
  split
  · trivial
  · trivial
  · -- every case of the suffix sets a value, or none
    repeat' refine Within.ite ?_ ?_
    all_goals trivial

theorem lookupVariable_safe {nested : List (List UInt8) → List UInt8 → Except Err Parser}
    {refs : List (List UInt8)} (hnest : NestedOk env nested refs) (p : Parser) (name : List UInt8) :
    Safe (p.lookupVariable env nested refs name) := by
  unfold Parser.lookupVariable
  split_ifs with hb hcyc
  · trivial
  · -- a name referenced already is a cycle
    split <;> trivial
  · split
    · trivial
    · split
      · exact (hnest name _ ‹_› hcyc).bind fun _ _ => trivial
      · trivial

theorem processItem_keeps {nested : List (List UInt8) → List UInt8 → Except Err Parser}
    {refs : List (List UInt8)} {p : Parser} {it : Item} {fp : List UInt8} {sh sh' : List Kind × Nat}
    (hnest : NestedOk env nested refs) (hfile : ∀ b f v, Safe (parseFile b f v))
    (h : PInv p sh) (hmv : Moves (some it.typ) sh sh') :
    Within Err.Returned (Keeps p sh') (p.processItem uc env parseFile nested refs it fp) := by
  obtain ⟨cs, n⟩ := sh
  obtain ⟨cs', n'⟩ := sh'
  unfold Parser.processItem
  dsimp only
  cases ht : it.typ <;> rw [ht] at hmv <;> simp only [Moves] at hmv <;> simp only
  case itemError => trivial
  case itemNIL | itemEOF | itemText | itemCommentStart =>
    obtain ⟨rfl, hn⟩ := hmv
    exact Keeps.refl h hn
  case itemKey =>
    obtain ⟨rfl, hn⟩ := hmv
    exact pushKey_keeps h it hn
  case itemMapStart =>
    obtain ⟨rfl, hn⟩ := hmv
    exact pushContext_keeps h (.map []) hn
  case itemArrayStart =>
    obtain ⟨rfl, hn⟩ := hmv
    exact pushContext_keeps h (.array []) hn
  case itemMapEnd | itemArrayEnd =>
    -- the context popped is the container the lexer closes
    obtain ⟨rfl, hn⟩ := hmv
    obtain ⟨p1, c, hpop, -, hk1⟩ := popContext_keeps h
    rw [hpop]
    exact (tokenSet_keeps hk1.1 hn).mono fun p2 hk2 => hk1.trans hk2
  case itemString =>
    obtain ⟨rfl, hn⟩ := hmv
    exact tokenSet_keeps h hn
  case itemInteger =>
    obtain ⟨rfl, hn⟩ := hmv
    refine (integerValue_safe uc it.val).bind fun o _ => ?_
    cases o with
    | some v => exact tokenSet_keeps h hn
    | none => exact Keeps.refl h (by omega)
  case itemFloat | itemDatetime =>
    obtain ⟨rfl, hn⟩ := hmv
    split
    all_goals first | trivial | exact tokenSet_keeps h hn
  case itemBool =>
    obtain ⟨rfl, hn⟩ := hmv
    exact Within.ite (tokenSet_keeps h hn) (Within.ite (tokenSet_keeps h hn) trivial)
  case itemVariable =>
    obtain ⟨rfl, hn⟩ := hmv
    have hsafe := lookupVariable_safe env hnest p it.val
    split
    · trivial
    · -- an error of the nested parser other than a parse error is passed on as it is
      rename_i e _ hl
      rw [hl] at hsafe
      exact hsafe
    · trivial
    · split_ifs with hped
      · split
        · exact setValue_keeps (h.markUsed it.val _) hn fun _ => trivial
        all_goals exact setValue_keeps h hn fun _ => trivial
      · exact setValue_keeps h hn fun h => absurd h hped
  case itemInclude =>
    -- every value of the file is set under its own key, in the map on top
    obtain ⟨rfl, htop, hn⟩ := hmv
    have hsafe := hfile p.pedantic p.fp it.val
    split
    · trivial
    · rename_i e _ hl
      rw [hl] at hsafe
      exact hsafe
    · refine Within.foldlM (fun b kv hb => ?_) _ p (Keeps.refl h hn)
      exact (includeStep_keeps hb.1 htop kv.1 kv.2).mono fun p2 hk2 => hb.trans hk2

theorem processItem_itemError (nested : List (List UInt8) → List UInt8 → Except Err Parser)
    (refs : List (List UInt8)) (p : Parser) (fp : List UInt8) {it : Item} (ht : it.typ = .itemError) :
    ∃ e, p.processItem uc env parseFile nested refs it fp = .error (.error e) := by
  unfold Parser.processItem
  rw [ht]
  exact ⟨_, rfl⟩

theorem parseLoop_safe {nested : List (List UInt8) → List UInt8 → Except Err Parser}
    {refs : List (List UInt8)} (fp : List UInt8) (fuel : Nat) (hnest : NestedOk env nested refs)
    (hfile : ∀ b f v, Safe (parseFile b f v)) :
    ∀ (n : Nat) (p : Parser) (s : StateFn) (prev : Item), Live p.lx s →
      PInv p (shape s p.lx.stack) → measure p.lx s < n → measure p.lx s ≤ fuel →
        Safe (parseLoop uc env parseFile nested refs fp fuel n p prev)
  | 0, _, _, _, _, _, hn, _ => absurd hn (Nat.not_lt_zero _)
  | n + 1, p, s, prev, hl, hinv, hn, hf => by
    obtain ⟨it, lx', hnext, hok⟩ := nextItem_ok uc fuel p.lx s hl hf
    rw [parseLoop, hnext]
    dsimp only
    by_cases heof : it.typ = .itemEOF
    · rw [if_pos heof]
      exact Within.ite trivial trivial
    rw [if_neg heof]
    rcases hok with ⟨⟨htyp, -⟩, -, -⟩ | ⟨s', hl', -, hm, -, -, hmv⟩
    · -- the lexer's error is reported by processItem
      obtain ⟨e, he⟩ := processItem_itemError uc env parseFile nested refs { p with lx := lx' } fp
        (htyp.resolve_left heof)
      rw [he]
      trivial
    · refine (processItem_keeps uc env parseFile hnest hfile (hinv.with_lx lx')
        hmv).bind fun p' hk => ?_
      have hlx : p'.lx = lx' := hk.2.1
      exact parseLoop_safe fp fuel hnest hfile n p' s' it (hlx ▸ hl') (hlx ▸ hk.1) (by rw [hlx]; omega)
        (by rw [hlx]; omega)

def unreferenced (refs : List (List UInt8)) : Finset (List UInt8) :=
  (env.map Prod.fst).toFinset \ refs.toFinset

theorem lookupEnv_mem {name v : List UInt8} (h : lookupEnv env name = some v) : (name, v) ∈ env := by
  unfold lookupEnv at h
  split_ifs at h
  obtain ⟨A, B, rfl, -⟩ := (Assoc.find_eq_some_iff _ _).mp h
  simp

theorem card_unreferenced_cons {refs : List (List UInt8)} {name v : List UInt8}
    (h : lookupEnv env name = some v) (hn : name ∉ refs) :
    (unreferenced env (name :: refs)).card + 1 = (unreferenced env refs).card := by
  have hmem : name ∈ unreferenced env refs := by
    simpa [unreferenced, hn] using ⟨v, lookupEnv_mem env h⟩
  have herase : unreferenced env (name :: refs) = (unreferenced env refs).erase name := by
    rw [unreferenced, unreferenced, List.toFinset_cons, Finset.sdiff_insert]
  rw [herase, Finset.card_erase_add_one hmem]

theorem length_pkey_value (v : List UInt8) : (pkey ++ txt "=" ++ v).length = v.length + 3 := by
  have h : (pkey ++ txt "=").length = 3 := by
    simp only [pkey, txt, String.toUTF8_toList]
    simp [String.utf8EncodeChar]
  rw [List.length_append, h, Nat.add_comm]

theorem parse_safe_of_fuel (hfile : ∀ b f v, Safe (parseFile b f v)) (w : Nat)
    (hw : (env.map fun e => e.2.length).sum + 3 ≤ w) :
    ∀ (fuel : Nat) (refs : List (List UInt8)) (data fp : List UInt8) (pedantic : Bool),
      data.length ≤ w → 8 * w + 2 + (unreferenced env refs).card < fuel →
        Safe (parse uc env parseFile fuel refs data fp pedantic)
  | 0, _, _, _, _, _, hf => absurd hf (Nat.not_lt_zero _)
  | fuel + 1, refs, data, fp, pedantic, hd, hf => by
    obtain ⟨hl, hm⟩ := lex_live data
    rw [parse]
    have hm' : measure (lex data) .lexTop < fuel + 1 := by omega
    refine parseLoop_safe uc env parseFile fp (fuel + 1) ?_ hfile (fuel + 1) _ .lexTop zeroItem hl
      ⟨rfl, Nat.zero_le _, fun _ => rfl⟩ hm' hm'.le
    -- a variable of the environment is parsed with its name referenced, one unit of fuel lower
    intro name v hv hn
    have hc := card_unreferenced_cons env hv hn
    have hv' : v.length ≤ (env.map fun e => e.2.length).sum :=
      List.le_sum_of_mem (List.mem_map.mpr ⟨_, lookupEnv_mem env hv, rfl⟩)
    exact parse_safe_of_fuel hfile w hw fuel (name :: refs) _ [] false
      (by rw [length_pkey_value]; omega) (by omega)

theorem card_unreferenced_nil_le : (unreferenced env []).card ≤ env.length :=
  calc (unreferenced env []).card
      ≤ (env.map Prod.fst).toFinset.card := Finset.card_le_card Finset.sdiff_subset
    _ ≤ (env.map Prod.fst).length := List.toFinset_card_le _
    _ = env.length := List.length_map _

theorem parseFuel_enough (data : List UInt8) :
    8 * (data.length + (env.map fun e => e.2.length).sum + 3) + 2 + (unreferenced env []).card <
      parseFuel env data := by
  have := card_unreferenced_nil_le env
  unfold parseFuel
  omega

end Items

end NatsServer.Conf
