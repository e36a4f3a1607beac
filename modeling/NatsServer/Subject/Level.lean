import NatsServer.Lib.Trie
import NatsServer.Subject.Tokens
import Mathlib.Algebra.GroupWithZero.Nat

/-!
# The level trie shared by both sublists

The generic sublist of `gsl` and the server's sublist store subscriptions in the same trie: a
level maps literal tokens to nodes and has a slot each for `*` and `>`, a node holds the
subscriptions of one filter and the level of the next token. They walk it with the same loops,
and differ only in what a node holds. The loops are given here once, over a payload type `P`:
`insertWalk` and `removeWalk` are the token loops of `Insert` and `remove`, `matchLevel` and
`matchLevelForAny` the descents of `Match` and `HasInterest`.

What each walk does to the trie is then said once, through the payload at a key path and the
presence of a node there: an insert applies its update at the filter's path and makes nodes
only on the way to it (also when a later token is refused), a removal changes only the payload
at the path and leaves no empty node on it, and the match walk reads the payloads at
`matchPaths` in order (`matchLevel_eq_foldl`).

A Go map from keys to nodes is an association list with distinct keys; a nil `next` level is
the empty list, which the walks treat as the source treats a nil level.
-/

namespace NatsServer.Subject

open NatsServer.Lib

abbrev Node (P : Type) := Trie Key P

abbrev Level (P : Type) := List (Key × Node P)

inductive SubError
  | invalidSubject
  | notFound
  deriving DecidableEq, Repr

variable {P β R N : Type}

def numNodes (l : Level P) : Nat := l.length

def isEmpty (empty : P → Bool) (n : Node P) : Bool := empty n.payload && numNodes n.children == 0

def pruneNode (l : Level P) (k : Key) : Level P := Assoc.erase k l

/-- The loop of Insert from level `l` at token `t`, with `rest` after it and `sfwc` set when
the token before was `>`. Missing nodes are made with payload `d`, and `upd` adds the
subscription to the last one. The second component is `none` when a token is refused
(ErrInvalidSubject), with the nodes made so far left in place, and otherwise the payload the
last node had before. -/
def insertWalk (d : P) (upd : P → P) (sfwc : Bool) (t : String) (rest : List String)
    (l : Level P) : Level P × Option P :=
  if t.length == 0 || sfwc then (l, none)
  else
    let k := keyOf t
    let n := Trie.slot d l k
    match rest with
    | [] => (Assoc.set k ⟨upd n.payload, n.children⟩ l, some n.payload)
    | t' :: rest' =>
      let r := insertWalk d upd (k == .fwc) t' rest' n.children
      (Assoc.set k ⟨n.payload, r.1⟩ l, r.2)

def missingError (sfwc : Bool) : List String → SubError
  | [] => .notFound
  | t :: _ => if t.length == 0 || sfwc then .invalidSubject else .notFound

def settle (empty : P → Bool) (k : Key) (n : Node P) (l : Level P) : Level P :=
  if isEmpty empty n then pruneNode (Assoc.set k n l) k else Assoc.set k n l

/-- The loop of remove from level `l` and the pruning after it; `rm` takes the subscription out
of the last node's payload, `none` when it is not there. -/
def removeWalk (empty : P → Bool) (rm : P → Option (P × β)) (sfwc : Bool) (t : String)
    (rest : List String) (l : Level P) : Except SubError (Level P × β) :=
  if t.length == 0 || sfwc then .error .invalidSubject
  else
    let k := keyOf t
    match Assoc.find k l with
    | none => .error (missingError (k == .fwc) rest)
    | some n =>
      match rest with
      | [] =>
        match rm n.payload with
        | none => .error .notFound
        | some (p, b) => .ok (settle empty k ⟨p, n.children⟩ l, b)
      | t' :: rest' =>
        match removeWalk empty rm (k == .fwc) t' rest' n.children with
        | .error e => .error e
        | .ok (c, b) => .ok (settle empty k ⟨n.payload, c⟩ l, b)

def addAt (add : R → P → R) (l : Level P) (k : Key) (r : R) : R :=
  match Assoc.find k l with
  | some n => add r n.payload
  | none => r

def descend (f : Level P → R → R) (l : Level P) (k : Key) (r : R) : R :=
  match Assoc.find k l with
  | some n => f n.children r
  | none => r

def matchLevel (add : R → P → R) : Level P → List String → R → R
  | _, [], r => r
  | l, t :: rest, r =>
    let r := descend (fun c => matchLevel add c rest) l .pwc (addAt add l .fwc r)
    match rest with
    | [] => addAt add l .pwc (addAt add l (.lit t) r)
    | _ :: _ => descend (fun c => matchLevel add c rest) l (.lit t) r

def descendAny [Zero N] (f : Level P → Bool × N) (l : Level P) (k : Key) : Bool × N :=
  match Assoc.find k l with
  | some n => f n.children
  | none => (false, 0)

def holdsAt [Zero N] (has : P → Bool) (cnt : P → N) (l : Level P) (k : Key) : Bool × N :=
  match Assoc.find k l with
  | some n => (has n.payload, cnt n.payload)
  | none => (false, 0)

def matchLevelForAny [Add N] [Zero N] (has : P → Bool) (cnt : P → N) :
    Level P → List String → Bool × N
  | _, [] => (false, 0)
  | l, t :: rest =>
    match Assoc.find .fwc l with
    | some f => (true, cnt f.payload)
    | none =>
      let pw := descendAny (fun c => matchLevelForAny has cnt c rest) l .pwc
      if pw.1 then pw
      else
        match rest with
        | [] =>
          let nn := holdsAt has cnt l (.lit t)
          if nn.1 then (true, pw.2 + nn.2)
          else
            let pc := holdsAt has cnt l .pwc
            (pc.1, pw.2 + nn.2 + pc.2)
        | _ :: _ =>
          let r := descendAny (fun c => matchLevelForAny has cnt c rest) l (.lit t)
          (r.1, pw.2 + r.2)

-- Generate the equation lemmas of insertWalk, removeWalk, matchLevel and matchLevelForAny here,
-- once, before the proofs below unfold them in parallel.
section
attribute [local simp] insertWalk removeWalk matchLevel matchLevelForAny
end


theorem slot_eq_of_find (d : P) {l : Level P} {k : Key} {n : Node P}
    (hf : Assoc.find k l = some n) : Trie.slot d l k = n := by
  simp [Trie.slot, hf]

/-! ## What an insert does -/

section Insert

variable (d : P) (upd : P → P) (x : P) {sfwc : Bool} {t t' : String} {rest : List String}
  {l : Level P}

theorem insertWalk_refused (h : (t.length == 0 || sfwc) = true) :
    insertWalk d upd sfwc t rest l = (l, none) := by
  rw [insertWalk, if_pos h]

theorem insertWalk_last (h : (t.length == 0 || sfwc) = false) :
    insertWalk d upd sfwc t [] l =
      (Assoc.set (keyOf t) ⟨upd (Trie.slot d l (keyOf t)).payload,
          (Trie.slot d l (keyOf t)).children⟩ l, some (Trie.slot d l (keyOf t)).payload) := by
  rw [insertWalk, if_neg (by simp [h])]

theorem insertWalk_cons (h : (t.length == 0 || sfwc) = false) :
    insertWalk d upd sfwc t (t' :: rest) l =
      (Assoc.set (keyOf t) ⟨(Trie.slot d l (keyOf t)).payload,
          (insertWalk d upd (keyOf t == .fwc) t' rest (Trie.slot d l (keyOf t)).children).1⟩ l,
        (insertWalk d upd (keyOf t == .fwc) t' rest (Trie.slot d l (keyOf t)).children).2) := by
  rw [insertWalk, if_neg (by simp [h])]

theorem accepts_cons (sfwc : Bool) (t : String) (rest : List String) :
    (!sfwc && validFilter (t :: rest)) =
      (!(t.length == 0 || sfwc) && (!(keyOf t == .fwc) || rest.isEmpty) && validFilter rest) := by
  rw [Bool.eq_iff_iff]
  by_cases ht : t = ">"
  · subst ht
    have h1 : ">".length = 1 := rfl
    cases sfwc <;> simp [validFilter, keyOf, h1]
  · cases sfwc <;> simp [validFilter, ht]

theorem accepts_cons_iff {sfwc : Bool} {t : String} {rest : List String} :
    (!sfwc && validFilter (t :: rest)) = true ↔
      (t.length == 0 || sfwc) = false ∧ (!(keyOf t == .fwc) || rest.isEmpty) = true ∧
        validFilter rest = true := by
  rw [accepts_cons]
  generalize (t.length == 0 || sfwc) = a
  generalize (!(keyOf t == .fwc) || rest.isEmpty) = b
  generalize validFilter rest = c
  cases a <;> cases b <;> cases c <;> simp

theorem insertWalk_snd :
    (insertWalk d upd sfwc t rest l).2 =
      if (!sfwc && validFilter (t :: rest)) = true then
        some (Trie.payloadAt d (⟨x, l⟩ : Node P) (keyPath (t :: rest)))
      else none := by
  induction rest generalizing sfwc t l x with
  | nil =>
    cases hr : (t.length == 0 || sfwc)
    · rw [insertWalk_last _ _ hr, accepts_cons sfwc t, hr]
      simp [validFilter, Trie.payloadAt_cons]
    · simp [insertWalk_refused _ _ hr, accepts_cons, hr]
  | cons t' rest' ih =>
    cases hr : (t.length == 0 || sfwc)
    · rw [insertWalk_cons _ _ hr, ih x, accepts_cons sfwc t, hr]
      simp [Trie.payloadAt_cons]
    · simp [insertWalk_refused _ _ hr, accepts_cons, hr]

theorem payloadAt_insertWalk (q : List Key) :
    Trie.payloadAt d (⟨x, (insertWalk d upd sfwc t rest l).1⟩ : Node P) q =
      if (!sfwc && validFilter (t :: rest)) = true ∧ q = keyPath (t :: rest) then
        upd (Trie.payloadAt d (⟨x, l⟩ : Node P) q)
      else Trie.payloadAt d (⟨x, l⟩ : Node P) q := by
  induction rest generalizing sfwc t l q x with
  | nil =>
    cases hr : (t.length == 0 || sfwc)
    · rw [insertWalk_last _ _ hr]
      rcases q with _ | ⟨k, ks⟩
      · simp
      by_cases hk : k = keyOf t
      · subst hk
        cases ks with
        | nil =>
          rw [accepts_cons sfwc t, hr]
          simp [validFilter, Trie.payloadAt_cons]
        | cons k' ks' => simp [Trie.payloadAt_cons]
      · simp [Trie.payloadAt_set_of_ne _ _ _ _ _ _ _ hk, hk]
    · simp [insertWalk_refused _ _ hr, accepts_cons, hr]
  | cons t' rest' ih =>
    cases hr : (t.length == 0 || sfwc)
    · rw [insertWalk_cons _ _ hr]
      rcases q with _ | ⟨k, ks⟩
      · simp
      by_cases hk : k = keyOf t
      · subst hk
        rw [Trie.payloadAt_set_self, ih, accepts_cons sfwc t, hr,
          Trie.payloadAt_cons (t := ⟨x, l⟩)]
        simp
      · simp [Trie.payloadAt_set_of_ne _ _ _ _ _ _ _ hk, hk]
    · simp [insertWalk_refused _ _ hr, accepts_cons, hr]

theorem present_insertWalk {q : List Key}
    (h : (⟨x, (insertWalk d upd sfwc t rest l).1⟩ : Node P).Present q) :
    (⟨x, l⟩ : Node P).Present q ∨ q <+: keyPath (t :: rest) := by
  induction rest generalizing sfwc t l q x with
  | nil =>
    cases hr : (t.length == 0 || sfwc)
    · rw [insertWalk_last _ _ hr] at h
      rcases q with _ | ⟨k, ks⟩
      · exact .inl (Trie.present_nil _)
      by_cases hk : k = keyOf t
      · subst hk
        rw [Trie.present_set_self] at h
        cases ks with
        | nil => exact .inr (List.prefix_refl _)
        | cons k' ks' =>
          rcases Trie.present_of_slot d x l (keyOf t) _ h with h' | h'
          · exact .inl h'
          · cases h'
      · exact .inl ((Trie.present_set_of_ne _ _ _ _ _ _ hk).mp h)
    · rw [insertWalk_refused _ _ hr] at h
      exact .inl h
  | cons t' rest' ih =>
    cases hr : (t.length == 0 || sfwc)
    · rw [insertWalk_cons _ _ hr] at h
      rcases q with _ | ⟨k, ks⟩
      · exact .inl (Trie.present_nil _)
      by_cases hk : k = keyOf t
      · subst hk
        rw [Trie.present_set_self] at h
        rcases ih _ h with hold | hpre
        · rcases Trie.present_of_slot d x l (keyOf t) ks hold with h' | rfl
          · exact .inl h'
          · exact .inr (List.cons_prefix_cons.mpr ⟨rfl, List.nil_prefix⟩)
        · exact .inr (List.cons_prefix_cons.mpr ⟨rfl, hpre⟩)
      · exact .inl ((Trie.present_set_of_ne _ _ _ _ _ _ hk).mp h)
    · rw [insertWalk_refused _ _ hr] at h
      exact .inl h

theorem present_insertWalk_of_present {q : List Key} (h : (⟨x, l⟩ : Node P).Present q) :
    (⟨x, (insertWalk d upd sfwc t rest l).1⟩ : Node P).Present q := by
  induction rest generalizing sfwc t l q x with
  | nil =>
    cases hr : (t.length == 0 || sfwc)
    · rw [insertWalk_last _ _ hr]
      rcases q with _ | ⟨k, ks⟩
      · exact Trie.present_nil _
      by_cases hk : k = keyOf t
      · subst hk
        obtain ⟨n, hn, hks⟩ := (Trie.present_cons _ _ _).mp h
        rw [Trie.present_set_self, slot_eq_of_find d hn]
        exact Trie.Present.of_children (t := n) _ rfl hks
      · exact (Trie.present_set_of_ne _ _ _ _ _ _ hk).mpr h
    · rw [insertWalk_refused _ _ hr]
      exact h
  | cons t' rest' ih =>
    cases hr : (t.length == 0 || sfwc)
    · rw [insertWalk_cons _ _ hr]
      rcases q with _ | ⟨k, ks⟩
      · exact Trie.present_nil _
      by_cases hk : k = keyOf t
      · subst hk
        obtain ⟨n, hn, hks⟩ := (Trie.present_cons _ _ _).mp h
        rw [Trie.present_set_self, slot_eq_of_find d hn]
        exact ih n.payload (by rwa [Trie.mk_payload_children])
      · exact (Trie.present_set_of_ne _ _ _ _ _ _ hk).mpr h
    · rw [insertWalk_refused _ _ hr]
      exact h

theorem present_insertWalk_prefix (hacc : (!sfwc && validFilter (t :: rest)) = true)
    {q : List Key} (hq : q <+: keyPath (t :: rest)) :
    (⟨x, (insertWalk d upd sfwc t rest l).1⟩ : Node P).Present q := by
  induction rest generalizing sfwc t l q x with
  | nil =>
    rw [insertWalk_last _ _ (accepts_cons_iff.mp hacc).1]
    rcases q with _ | ⟨k, ks⟩
    · exact Trie.present_nil _
    obtain ⟨rfl, hks⟩ := List.cons_prefix_cons.mp hq
    obtain rfl := List.prefix_nil.mp hks
    rw [Trie.present_set_self]
    exact Trie.present_nil _
  | cons t' rest' ih =>
    obtain ⟨hr, hk, hv⟩ := accepts_cons_iff.mp hacc
    have hacc' : (!(keyOf t == .fwc) && validFilter (t' :: rest')) = true := by
      rw [Bool.and_eq_true]
      exact ⟨by simpa using hk, hv⟩
    rw [insertWalk_cons _ _ hr]
    rcases q with _ | ⟨k, ks⟩
    · exact Trie.present_nil _
    obtain ⟨rfl, hks⟩ := List.cons_prefix_cons.mp hq
    rw [Trie.present_set_self]
    exact ih _ hacc' hks

end Insert

/-! ## What a removal does

The payload `d` of a new node is taken to be the only payload that `empty` finds empty, and to
hold nothing that `rm` could take out: a pruned node then reads as no node. -/

section Remove

variable (d : P) (empty : P → Bool) (rm : P → Option (P × β)) (x : P) {sfwc : Bool}
  {t t' : String} {rest : List String} {l : Level P}

theorem removeWalk_refused (h : (t.length == 0 || sfwc) = true) :
    removeWalk empty rm sfwc t rest l = .error .invalidSubject := by
  rw [removeWalk, if_pos h]

theorem removeWalk_missing (h : (t.length == 0 || sfwc) = false)
    (hf : Assoc.find (keyOf t) l = none) :
    removeWalk empty rm sfwc t rest l = .error (missingError (keyOf t == .fwc) rest) := by
  rw [removeWalk, if_neg (by simp [h])]
  simp only [hf]

theorem removeWalk_last (h : (t.length == 0 || sfwc) = false) {n : Node P}
    (hf : Assoc.find (keyOf t) l = some n) :
    removeWalk empty rm sfwc t [] l =
      match rm n.payload with
      | none => .error .notFound
      | some (p, b) => .ok (settle empty (keyOf t) ⟨p, n.children⟩ l, b) := by
  rw [removeWalk, if_neg (by simp [h])]
  simp only [hf]

theorem removeWalk_cons (h : (t.length == 0 || sfwc) = false) {n : Node P}
    (hf : Assoc.find (keyOf t) l = some n) :
    removeWalk empty rm sfwc t (t' :: rest) l =
      match removeWalk empty rm (keyOf t == .fwc) t' rest n.children with
      | .error e => .error e
      | .ok (c, b) => .ok (settle empty (keyOf t) ⟨n.payload, c⟩ l, b) := by
  rw [removeWalk, if_neg (by simp [h])]
  simp only [hf]

theorem removeWalk_ok_of (hrm : rm d = none) {p' : P} {b : β}
    (hacc : (!sfwc && validFilter (t :: rest)) = true)
    (hp : rm (Trie.payloadAt d (⟨x, l⟩ : Node P) (keyPath (t :: rest))) = some (p', b)) :
    ∃ l', removeWalk empty rm sfwc t rest l = .ok (l', b) := by
  induction rest generalizing sfwc t l x with
  | nil =>
    have hr := (accepts_cons_iff.mp hacc).1
    cases hf : Assoc.find (keyOf t) l with
    | none => simp [Trie.payloadAt_cons, Trie.slot, hf, hrm] at hp
    | some n =>
      rw [removeWalk_last _ _ hr hf]
      simp only [keyPath_cons, keyPath_nil, Trie.payloadAt_cons, slot_eq_of_find d hf,
        Trie.payloadAt_nil] at hp
      simp [hp]
  | cons t' rest' ih =>
    obtain ⟨hr, hk, hv⟩ := accepts_cons_iff.mp hacc
    have hacc' : (!(keyOf t == .fwc) && validFilter (t' :: rest')) = true := by
      rw [Bool.and_eq_true]
      exact ⟨by simpa using hk, hv⟩
    cases hf : Assoc.find (keyOf t) l with
    | none => simp [Trie.payloadAt_cons, Trie.slot, hf, hrm] at hp
    | some n =>
      rw [removeWalk_cons _ _ hr hf]
      rw [keyPath_cons, Trie.payloadAt_cons, slot_eq_of_find d hf,
        ← Trie.mk_payload_children n] at hp
      obtain ⟨c, hc⟩ := ih n.payload hacc' hp
      simp [hc]

variable {d empty}

theorem payloadAt_settle (hempty : ∀ p, empty p = true → p = d) (k : Key) (n : Node P)
    (q : List Key) :
    Trie.payloadAt d (⟨x, settle empty k n l⟩ : Node P) q =
      Trie.payloadAt d (⟨x, Assoc.set k n l⟩ : Node P) q := by
  unfold settle
  split_ifs with he
  · have hn : n = ⟨d, []⟩ := by
      obtain ⟨p, c⟩ := n
      simp only [isEmpty, numNodes, Bool.and_eq_true, beq_iff_eq, List.length_eq_zero_iff] at he
      rw [hempty p he.1, he.2]
    rcases q with _ | ⟨k', ks⟩
    · rfl
    by_cases hk : k' = k
    · subst hk hn
      simp [pruneNode]
    · simp [pruneNode, Trie.payloadAt_erase_of_ne _ _ _ _ _ _ hk]
  · rfl

theorem present_settle {k : Key} {n : Node P} {q : List Key}
    (h : (⟨x, settle empty k n l⟩ : Node P).Present q) :
    (⟨x, Assoc.set k n l⟩ : Node P).Present q := by
  unfold settle at h
  split_ifs at h
  · rcases q with _ | ⟨k', ks⟩
    · exact Trie.present_nil _
    by_cases hk : k' = k
    · subst hk
      exact absurd h (Trie.not_present_erase_self _ _ _ _)
    · exact (Trie.present_erase_of_ne _ _ _ _ _ hk).mp h
  · exact h

theorem settle_of_present {k : Key} {n : Node P} {ks : List Key}
    (h : (⟨x, settle empty k n l⟩ : Node P).Present (k :: ks)) :
    settle empty k n l = Assoc.set k n l := by
  unfold settle at h ⊢
  split_ifs at h ⊢
  · exact absurd h (Trie.not_present_erase_self _ _ _ _)
  · rfl

theorem settle_holds {k : Key} {n : Node P} (h : (⟨x, settle empty k n l⟩ : Node P).Present [k]) :
    empty (Trie.payloadAt d (⟨x, settle empty k n l⟩ : Node P) [k]) = false ∨
      ∃ k', (⟨x, settle empty k n l⟩ : Node P).Present [k, k'] := by
  have hne : isEmpty empty n = false := by
    unfold settle at h
    split_ifs at h with he
    · exact absurd h (Trie.not_present_erase_self _ _ _ _)
    · simpa using he
  rw [settle_of_present x h]
  simp only [isEmpty, numNodes, Bool.and_eq_false_iff, beq_eq_false_iff_ne, ne_eq,
    List.length_eq_zero_iff] at hne
  rcases hne with he | hc
  · left
    simpa [Trie.payloadAt_cons] using he
  · right
    obtain ⟨⟨k', c⟩, cs, hcs⟩ := List.exists_cons_of_ne_nil hc
    refine ⟨k', ?_⟩
    simp [Trie.Present, Trie.get?_cons, hcs, Assoc.find]

theorem removeWalk_eq_ok (hempty : ∀ p, empty p = true → p = d) {l' : Level P} {b : β}
    (h : removeWalk empty rm sfwc t rest l = .ok (l', b)) :
    (!sfwc && validFilter (t :: rest)) = true ∧
      ∃ p', rm (Trie.payloadAt d (⟨x, l⟩ : Node P) (keyPath (t :: rest))) = some (p', b) ∧
        ∀ q, Trie.payloadAt d (⟨x, l'⟩ : Node P) q =
          if q = keyPath (t :: rest) then p' else Trie.payloadAt d (⟨x, l⟩ : Node P) q := by
  induction rest generalizing sfwc t l l' b x with
  | nil =>
    cases hr : (t.length == 0 || sfwc)
    · cases hf : Assoc.find (keyOf t) l with
      | none => rw [removeWalk_missing _ _ hr hf] at h; cases h
      | some n =>
        rw [removeWalk_last _ _ hr hf] at h
        rcases hrm : rm n.payload with _ | ⟨p, b'⟩ <;> rw [hrm] at h
        · cases h
        · cases h
          refine ⟨by rw [accepts_cons sfwc t, hr]; simp [validFilter], p, ?_,
            fun q => ?_⟩
          · simp [Trie.payloadAt_cons, slot_eq_of_find d hf, hrm]
          rw [payloadAt_settle _ hempty]
          rcases q with _ | ⟨k, ks⟩
          · simp
          by_cases hk : k = keyOf t
          · subst hk
            cases ks <;> simp [Trie.payloadAt_cons, slot_eq_of_find d hf]
          · simp [Trie.payloadAt_set_of_ne _ _ _ _ _ _ _ hk, hk]
    · rw [removeWalk_refused _ _ hr] at h; cases h
  | cons t' rest' ih =>
    cases hr : (t.length == 0 || sfwc)
    · cases hf : Assoc.find (keyOf t) l with
      | none => rw [removeWalk_missing _ _ hr hf] at h; cases h
      | some n =>
        rw [removeWalk_cons _ _ hr hf] at h
        rcases hrec : removeWalk empty rm (keyOf t == .fwc) t' rest' n.children with
          _ | ⟨c, b'⟩ <;> rw [hrec] at h
        · cases h
        · cases h
          obtain ⟨hacc, p', hrm, hpay⟩ := ih n.payload hrec
          refine ⟨by rw [accepts_cons sfwc t, hr]; simpa using hacc, p', ?_,
            fun q => ?_⟩
          · simpa [Trie.payloadAt_cons, slot_eq_of_find d hf] using hrm
          rw [payloadAt_settle _ hempty]
          rcases q with _ | ⟨k, ks⟩
          · simp
          by_cases hk : k = keyOf t
          · subst hk
            rw [Trie.payloadAt_set_self, hpay, Trie.payloadAt_cons (t := ⟨x, l⟩),
              slot_eq_of_find d hf]
            simp
          · simp [Trie.payloadAt_set_of_ne _ _ _ _ _ _ _ hk, hk]
    · rw [removeWalk_refused _ _ hr] at h; cases h

theorem present_removeWalk {l' : Level P} {b : β}
    (h : removeWalk empty rm sfwc t rest l = .ok (l', b)) {q : List Key}
    (hq : (⟨x, l'⟩ : Node P).Present q) : (⟨x, l⟩ : Node P).Present q := by
  induction rest generalizing sfwc t l l' b x q with
  | nil =>
    cases hr : (t.length == 0 || sfwc)
    · cases hf : Assoc.find (keyOf t) l with
      | none => rw [removeWalk_missing _ _ hr hf] at h; cases h
      | some n =>
        rw [removeWalk_last _ _ hr hf] at h
        rcases hrm : rm n.payload with _ | ⟨p, b'⟩ <;> rw [hrm] at h
        · cases h
        · cases h
          have hq' := present_settle x hq
          rcases q with _ | ⟨k, ks⟩
          · exact Trie.present_nil _
          by_cases hk : k = keyOf t
          · subst hk
            rw [Trie.present_set_self] at hq'
            cases ks with
            | nil => exact (Trie.present_cons _ _ _).mpr ⟨n, hf, Trie.present_nil _⟩
            | cons k' ks' =>
              exact (Trie.present_cons _ _ _).mpr
                ⟨n, hf, (Trie.present_cons_of_children _ _ rfl).mp hq'⟩
          · exact (Trie.present_set_of_ne _ _ _ _ _ _ hk).mp hq'
    · rw [removeWalk_refused _ _ hr] at h; cases h
  | cons t' rest' ih =>
    cases hr : (t.length == 0 || sfwc)
    · cases hf : Assoc.find (keyOf t) l with
      | none => rw [removeWalk_missing _ _ hr hf] at h; cases h
      | some n =>
        rw [removeWalk_cons _ _ hr hf] at h
        rcases hrec : removeWalk empty rm (keyOf t == .fwc) t' rest' n.children with
          _ | ⟨c, b'⟩ <;> rw [hrec] at h
        · cases h
        · cases h
          have hq' := present_settle x hq
          rcases q with _ | ⟨k, ks⟩
          · exact Trie.present_nil _
          by_cases hk : k = keyOf t
          · subst hk
            rw [Trie.present_set_self] at hq'
            have := ih n.payload hrec hq'
            rw [Trie.mk_payload_children] at this
            exact (Trie.present_cons _ _ _).mpr ⟨n, hf, this⟩
          · exact (Trie.present_set_of_ne _ _ _ _ _ _ hk).mp hq'
    · rw [removeWalk_refused _ _ hr] at h; cases h

theorem settle_of_present_below {k k' : Key} {n : Node P} {ks : List Key}
    (h : n.Present (k' :: ks)) : settle empty k n l = Assoc.set k n l := by
  unfold settle
  rw [if_neg]
  simp [isEmpty, numNodes, Trie.children_ne_nil_of_present _ _ _ h]

theorem present_settle_of {k : Key} {n n' : Node P} (hf : Assoc.find k l = some n)
    {ks : List Key} (hks : ks ≠ []) (hn : n.Present ks → n'.Present ks)
    (hq : (⟨x, l⟩ : Node P).Present (k :: ks)) :
    (⟨x, settle empty k n' l⟩ : Node P).Present (k :: ks) := by
  obtain ⟨n0, hn0, hks'⟩ := (Trie.present_cons _ _ _).mp hq
  obtain rfl : n0 = n := Option.some.inj (hn0.symm.trans hf)
  obtain ⟨k', ks', rfl⟩ := List.exists_cons_of_ne_nil hks
  rw [settle_of_present_below (hn hks'), Trie.present_set_self]
  exact hn hks'

theorem present_settle_of_ne {k k' : Key} (hk : k' ≠ k) (n : Node P) {ks : List Key}
    (hq : (⟨x, l⟩ : Node P).Present (k' :: ks)) :
    (⟨x, settle empty k n l⟩ : Node P).Present (k' :: ks) := by
  unfold settle
  split_ifs
  · rw [pruneNode, Trie.present_erase_of_ne _ _ _ _ _ hk, Trie.present_set_of_ne _ _ _ _ _ _ hk]
    exact hq
  · exact (Trie.present_set_of_ne _ _ _ _ _ _ hk).mpr hq

theorem present_removeWalk_of_present {l' : Level P} {b : β}
    (h : removeWalk empty rm sfwc t rest l = .ok (l', b)) {q : List Key}
    (hq : (⟨x, l⟩ : Node P).Present q) (hnp : ¬ q <+: keyPath (t :: rest)) :
    (⟨x, l'⟩ : Node P).Present q := by
  rcases q with _ | ⟨k, ks⟩
  · exact absurd List.nil_prefix hnp
  induction rest generalizing sfwc t l l' b x k ks with
  | nil =>
    cases hr : (t.length == 0 || sfwc)
    · cases hf : Assoc.find (keyOf t) l with
      | none => rw [removeWalk_missing _ _ hr hf] at h; cases h
      | some n =>
        rw [removeWalk_last _ _ hr hf] at h
        rcases hrm : rm n.payload with _ | ⟨p, b'⟩ <;> rw [hrm] at h
        · cases h
        · cases h
          by_cases hk : k = keyOf t
          · subst hk
            -- the path ends here, so what lies below the emptied node stays
            have hks : ks ≠ [] := by
              rintro rfl
              exact hnp (List.prefix_refl _)
            exact present_settle_of x hf hks (Trie.Present.of_children _ rfl) hq
          · exact present_settle_of_ne x hk _ hq
    · rw [removeWalk_refused _ _ hr] at h; cases h
  | cons t' rest' ih =>
    cases hr : (t.length == 0 || sfwc)
    · cases hf : Assoc.find (keyOf t) l with
      | none => rw [removeWalk_missing _ _ hr hf] at h; cases h
      | some n =>
        rw [removeWalk_cons _ _ hr hf] at h
        rcases hrec : removeWalk empty rm (keyOf t == .fwc) t' rest' n.children with
          _ | ⟨c, b'⟩ <;> rw [hrec] at h
        · cases h
        · cases h
          by_cases hk : k = keyOf t
          · subst hk
            have hnp' : ¬ ks <+: keyPath (t' :: rest') := fun hp =>
              hnp (List.cons_prefix_cons.mpr ⟨rfl, hp⟩)
            have hks : ks ≠ [] := by
              rintro rfl
              exact hnp' List.nil_prefix
            obtain ⟨k', ks', rfl⟩ := List.exists_cons_of_ne_nil hks
            refine present_settle_of x hf hks (fun hn => ?_) hq
            exact ih n.payload hrec k' ks' (by rwa [Trie.mk_payload_children]) hnp'
          · exact present_settle_of_ne x hk _ hq
    · rw [removeWalk_refused _ _ hr] at h; cases h

theorem removeWalk_pruned {l' : Level P} {b : β}
    (h : removeWalk empty rm sfwc t rest l = .ok (l', b)) {q : List Key} (hq : q ≠ [])
    (hpre : q <+: keyPath (t :: rest)) (hp : (⟨x, l'⟩ : Node P).Present q) :
    empty (Trie.payloadAt d (⟨x, l'⟩ : Node P) q) = false ∨
      ∃ k, (⟨x, l'⟩ : Node P).Present (q ++ [k]) := by
  obtain ⟨k, ks, rfl⟩ := List.exists_cons_of_ne_nil hq
  obtain ⟨rfl, hks⟩ := List.cons_prefix_cons.mp hpre
  clear hq hpre
  induction rest generalizing sfwc t l l' b x ks with
  | nil =>
    obtain rfl := List.prefix_nil.mp hks
    cases hr : (t.length == 0 || sfwc)
    · cases hf : Assoc.find (keyOf t) l with
      | none => rw [removeWalk_missing _ _ hr hf] at h; cases h
      | some n =>
        rw [removeWalk_last _ _ hr hf] at h
        rcases hrm : rm n.payload with _ | ⟨p, b'⟩ <;> rw [hrm] at h
        · cases h
        · cases h
          exact settle_holds x hp
    · rw [removeWalk_refused _ _ hr] at h; cases h
  | cons t' rest' ih =>
    cases hr : (t.length == 0 || sfwc)
    · cases hf : Assoc.find (keyOf t) l with
      | none => rw [removeWalk_missing _ _ hr hf] at h; cases h
      | some n =>
        rw [removeWalk_cons _ _ hr hf] at h
        rcases hrec : removeWalk empty rm (keyOf t == .fwc) t' rest' n.children with
          _ | ⟨c, b'⟩ <;> rw [hrec] at h
        · cases h
        · cases h
          rcases ks with _ | ⟨k', ks'⟩
          · exact settle_holds x hp
          -- below the first node the removal continues in its level
          have hs := settle_of_present x hp
          rw [hs, Trie.present_set_self] at hp
          rw [hs]
          obtain ⟨rfl, hks'⟩ := List.cons_prefix_cons.mp hks
          rcases ih n.payload hrec ks' hks' hp with he | ⟨k2, hk2⟩
          · exact .inl (by rwa [Trie.payloadAt_set_self])
          · exact .inr ⟨k2, by rwa [List.cons_append, Trie.present_set_self]⟩
    · rw [removeWalk_refused _ _ hr] at h; cases h

end Remove

/-! ## What the match walks read -/

section Match

variable (d x : P)

theorem addAt_eq {add : R → P → R} (hd : ∀ r, add r d = r) (l : Level P) (k : Key) (r : R) :
    addAt add l k r = add r (Trie.payloadAt d (⟨x, l⟩ : Node P) [k]) := by
  unfold addAt
  cases hf : Assoc.find k l <;> simp [Trie.payloadAt_cons, Trie.slot, hf, hd]

theorem foldl_add_default {add : R → P → R} (hd : ∀ r, add r d = r) (ps : List (List Key))
    (r : R) : ps.foldl (fun r _ => add r d) r = r := by
  induction ps generalizing r with
  | nil => rfl
  | cons p ps ih => rw [List.foldl_cons, hd, ih]

theorem descend_eq {add : R → P → R} (hd : ∀ r, add r d = r) {f : Level P → R → R}
    {ps : List (List Key)}
    (hf : ∀ (y : P) c r, f c r = ps.foldl (fun r p => add r (Trie.payloadAt d (⟨y, c⟩ : Node P) p)) r)
    (l : Level P) (k : Key) (r : R) :
    descend f l k r = ps.foldl (fun r p => add r (Trie.payloadAt d (⟨x, l⟩ : Node P) (k :: p))) r := by
  unfold descend
  cases hk : Assoc.find k l with
  | none => simp [Trie.payloadAt_cons, Trie.slot, hk, foldl_add_default d hd]
  | some n =>
    simp only [hf n.payload, Trie.mk_payload_children, Trie.payloadAt_cons (t := ⟨x, l⟩),
      Trie.slot, hk, Option.getD_some]

theorem matchLevel_eq_foldl {add : R → P → R} (hd : ∀ r, add r d = r) (l : Level P)
    (toks : List String) (r : R) :
    matchLevel add l toks r =
      (matchPaths toks).foldl (fun r p => add r (Trie.payloadAt d (⟨x, l⟩ : Node P) p)) r := by
  induction toks generalizing l r x with
  | nil => rfl
  | cons t rest ih =>
    have hbelow := descend_eq d x hd (fun y c r => ih y c r)
    cases rest with
    | nil =>
      rw [matchLevel.eq_2]
      simp only [matchPaths, hbelow, addAt_eq d x hd, List.foldl_cons, List.foldl_nil]
    | cons t' rest' =>
      rw [matchLevel.eq_3]
      simp only [matchPaths, hbelow, addAt_eq d x hd, List.foldl_cons, List.foldl_append,
        List.foldl_map]

theorem matchPaths_cons (t : String) (rest : List String) :
    ∃ ps, matchPaths (t :: rest) = [.fwc] :: ps := by
  cases rest <;> exact ⟨_, rfl⟩

/-- Every node in a `>` slot holds a subscription: the one place where the interest walk
answers without looking at the node. -/
def FwcHolds (has : P → Bool) (t : Node P) : Prop :=
  ∀ q, t.Present (q ++ [.fwc]) → has (t.payloadAt d (q ++ [.fwc])) = true

theorem FwcHolds.child {has : P → Bool} {l : Level P} (h : FwcHolds d has ⟨x, l⟩) {k : Key}
    {c : Node P} (hk : Assoc.find k l = some c) (y : P) : FwcHolds d has ⟨y, c.children⟩ := by
  intro q hq
  obtain ⟨q₀, ks, hq₀⟩ : ∃ q₀ ks, q ++ [Key.fwc] = q₀ :: ks := List.exists_cons_of_ne_nil (by simp)
  rw [hq₀] at hq ⊢
  have hpres : (⟨x, l⟩ : Node P).Present (k :: q ++ [.fwc]) := by
    rw [List.cons_append, hq₀]
    exact (Trie.present_cons _ _ _).mpr ⟨c, hk, (Trie.present_cons_of_children _ _ rfl).mp hq⟩
  have hc := h (k :: q) hpres
  rw [List.cons_append, hq₀, Trie.payloadAt_cons, slot_eq_of_find d hk] at hc
  have e : Trie.payloadAt d (⟨y, c.children⟩ : Node P) (q₀ :: ks) = Trie.payloadAt d c (q₀ :: ks) :=
    Trie.payloadAt_cons_of_children _ _ _ rfl
  rwa [e]

theorem holdsAt_fst [Zero N] {has : P → Bool} (hd : has d = false) (cnt : P → N) (l : Level P)
    (k : Key) : (holdsAt has cnt l k).1 = has (Trie.payloadAt d (⟨x, l⟩ : Node P) [k]) := by
  unfold holdsAt
  cases hk : Assoc.find k l <;> simp [Trie.payloadAt_cons, Trie.slot, hk, hd]

theorem descendAny_fst [Zero N] {has : P → Bool} (hd : has d = false) {f : Level P → Bool × N}
    {ps : List (List Key)}
    (hf : ∀ (y : P) c, FwcHolds d has ⟨y, c⟩ →
      (f c).1 = ps.any (fun p => has (Trie.payloadAt d (⟨y, c⟩ : Node P) p)))
    {l : Level P} (hl : FwcHolds d has ⟨x, l⟩) (k : Key) :
    (descendAny f l k).1 = ps.any (fun p => has (Trie.payloadAt d (⟨x, l⟩ : Node P) (k :: p))) := by
  unfold descendAny
  cases hk : Assoc.find k l with
  | none => simp [Trie.payloadAt_cons, Trie.slot, hk, hd]
  | some n =>
    simp only [hf n.payload n.children (hl.child d x hk n.payload), Trie.mk_payload_children,
      Trie.payloadAt_cons (t := ⟨x, l⟩), Trie.slot, hk, Option.getD_some]

theorem matchLevelForAny_fst [Add N] [Zero N] {has : P → Bool} (hd : has d = false)
    (cnt : P → N) {l : Level P} (hl : FwcHolds d has ⟨x, l⟩) (toks : List String) :
    (matchLevelForAny has cnt l toks).1 =
      (matchPaths toks).any (fun p => has (Trie.payloadAt d (⟨x, l⟩ : Node P) p)) := by
  induction toks generalizing l x with
  | nil => rfl
  | cons t rest ih =>
    obtain ⟨ps, hps⟩ := matchPaths_cons t rest
    have hpw := descendAny_fst d x hd (fun y c hc => ih y hc) hl
    cases hf : Assoc.find .fwc l with
    | some f =>
      -- the walk stops at the `>` node, which holds a subscription
      have hfwc : has (Trie.payloadAt d (⟨x, l⟩ : Node P) [.fwc]) = true :=
        hl [] ((Trie.present_cons _ _ _).mpr ⟨f, hf, Trie.present_nil _⟩)
      cases rest <;> simp [matchLevelForAny, hf, hps, hfwc]
    | none =>
      have hfwc : Trie.payloadAt d (⟨x, l⟩ : Node P) [.fwc] = d := by
        simp [Trie.payloadAt_cons, Trie.slot, hf]
      cases rest with
      | nil =>
        rw [matchLevelForAny.eq_2]
        simp only [hf]
        have h1 := holdsAt_fst d x hd cnt l (.lit t)
        have h2 := holdsAt_fst d x hd cnt l .pwc
        simp only [matchPaths, List.any_cons, List.any_nil, hfwc, hd, hpw] at h1 h2 ⊢
        split_ifs <;> simp_all
      | cons t' rest' =>
        rw [matchLevelForAny.eq_2]
        simp only [hf]
        have hlit := descendAny_fst d x hd (fun y c hc => ih y hc) hl (.lit t)
        simp only [matchPaths, List.any_cons, List.any_append, List.any_map, Function.comp_def,
          hfwc, hd, hpw] at hlit ⊢
        split_ifs <;> simp_all

end Match

end NatsServer.Subject
