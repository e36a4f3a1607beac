import Mathlib.Data.List.Basic

/-!
# Association lists as finite maps

A `List (α × β)` read as a map: `find` returns the value of the first entry with a key, `set`
replaces that entry or appends one, `erase` drops every entry with the key. `set` keeps keys
distinct when they were (`nodup_keys_set`), so on such lists the keys are the map's domain and
the entries are visited once each, as a Go `range` over a map visits them.
-/

namespace NatsServer.Lib.Assoc

variable {α β : Type} [DecidableEq α]

def find (k : α) : List (α × β) → Option β
  | [] => none
  | (a, b) :: rest => if a = k then some b else find k rest

def set (k : α) (v : β) : List (α × β) → List (α × β)
  | [] => [(k, v)]
  | (a, b) :: rest => if a = k then (k, v) :: rest else (a, b) :: set k v rest

def erase (k : α) : List (α × β) → List (α × β)
  | [] => []
  | (a, b) :: rest => if a = k then erase k rest else (a, b) :: erase k rest

-- Generate the equation lemmas of find, set and erase here, once, before the proofs below unfold
-- them in parallel.
section
attribute [local simp] find set erase
end


section Lemmas

variable (k k' : α) (v : β) (m : List (α × β))

@[simp] theorem find_nil : find k ([] : List (α × β)) = none := rfl

@[simp] theorem find_set_self : find k (set k v m) = some v := by
  induction m with
  | nil => simp [set, find]
  | cons e m ih =>
    obtain ⟨a, b⟩ := e
    by_cases h : a = k
    · simp [set, find, h]
    · simp [set, find, h, ih]

theorem find_set_of_ne (h : k' ≠ k) : find k' (set k v m) = find k' m := by
  induction m with
  | nil => simp [set, find, Ne.symm h]
  | cons e m ih =>
    obtain ⟨a, b⟩ := e
    by_cases ha : a = k
    · subst ha
      simp [set, find, Ne.symm h]
    · by_cases ha' : a = k' <;> simp [set, find, ha, ha', ih, h]

@[simp] theorem find_erase_self : find k (erase k m) = (none : Option β) := by
  induction m with
  | nil => rfl
  | cons e m ih =>
    obtain ⟨a, b⟩ := e
    by_cases h : a = k <;> simp [erase, find, h, ih]

theorem find_erase_of_ne (h : k' ≠ k) : find k' (erase k m) = find k' m := by
  induction m with
  | nil => rfl
  | cons e m ih =>
    obtain ⟨a, b⟩ := e
    by_cases ha : a = k
    · subst ha
      simp [erase, find, Ne.symm h, ih]
    · by_cases ha' : a = k' <;> simp [erase, find, ha, ha', ih, h]

theorem find_eq_none_iff : find k m = none ↔ k ∉ m.map Prod.fst := by
  induction m with
  | nil => simp
  | cons e m ih =>
    obtain ⟨a, b⟩ := e
    by_cases h : a = k
    · subst h
      simp [find]
    · rw [find, if_neg h, ih]
      simp [Ne.symm h]

theorem isSome_find_of_mem {b : β} (h : (k, b) ∈ m) : (find k m).isSome := by
  induction m with
  | nil => cases h
  | cons e m ih =>
    obtain ⟨a, b'⟩ := e
    by_cases ha : a = k
    · simp [find, ha]
    · rw [find, if_neg ha]
      rcases List.mem_cons.mp h with h | h
      · cases h; exact absurd rfl ha
      · exact ih h

@[simp] theorem set_ne_nil : set k v m ≠ [] := by
  cases m with
  | nil => simp [set]
  | cons e m =>
    obtain ⟨a, b⟩ := e
    by_cases h : a = k <;> simp [set, h]

theorem mem_keys_set : k' ∈ (set k v m).map Prod.fst ↔ k' = k ∨ k' ∈ m.map Prod.fst := by
  induction m with
  | nil => simp [set]
  | cons e m ih =>
    obtain ⟨a, b⟩ := e
    by_cases h : a = k
    · subst h
      simp [set]
    · simp only [set, h, if_false, List.map_cons, List.mem_cons, ih]
      tauto

theorem nodup_keys_set (hm : (m.map Prod.fst).Nodup) : ((set k v m).map Prod.fst).Nodup := by
  induction m with
  | nil => simp [set]
  | cons e m ih =>
    obtain ⟨a, b⟩ := e
    rw [List.map_cons, List.nodup_cons] at hm
    by_cases h : a = k
    · subst h
      simpa [set] using hm
    · simp only [set, h, if_false, List.map_cons, List.nodup_cons]
      refine ⟨?_, ih hm.2⟩
      rw [mem_keys_set]
      rintro (rfl | h')
      · exact h rfl
      · exact hm.1 h'

theorem keys_erase_sublist : ((erase k m).map Prod.fst).Sublist (m.map Prod.fst) := by
  induction m with
  | nil => simp [erase]
  | cons e m ih =>
    obtain ⟨a, b⟩ := e
    by_cases h : a = k
    · simpa [erase, h] using ih.cons a
    · simpa [erase, h] using ih.cons_cons a

theorem nodup_keys_erase (hm : (m.map Prod.fst).Nodup) : ((erase k m).map Prod.fst).Nodup :=
  (keys_erase_sublist k m).nodup hm

theorem mem_keys_erase : k' ∈ (erase k m).map Prod.fst ↔ k' ≠ k ∧ k' ∈ m.map Prod.fst := by
  induction m with
  | nil => simp [erase]
  | cons e m ih =>
    obtain ⟨a, b⟩ := e
    by_cases h : a = k
    · subst h
      simp only [erase, if_true, ih, List.map_cons, List.mem_cons]
      constructor
      · exact fun h => ⟨h.1, .inr h.2⟩
      · rintro ⟨hne, rfl | h⟩
        · exact absurd rfl hne
        · exact ⟨hne, h⟩
    · simp only [erase, h, if_false, List.map_cons, List.mem_cons, ih]
      constructor
      · rintro (rfl | ⟨hne, h'⟩)
        · exact ⟨h, .inl rfl⟩
        · exact ⟨hne, .inr h'⟩
      · rintro ⟨hne, rfl | h'⟩
        · exact .inl rfl
        · exact .inr ⟨hne, h'⟩

theorem mem_set {x : α × β} (h : x ∈ set k v m) : x = (k, v) ∨ x ∈ m := by
  induction m with
  | nil => simpa [set] using h
  | cons e m ih =>
    obtain ⟨a, b⟩ := e
    by_cases ha : a = k
    · simp only [set, ha, if_true, List.mem_cons] at h
      rcases h with h | h
      · exact .inl h
      · exact .inr (List.mem_cons_of_mem _ h)
    · simp only [set, ha, if_false, List.mem_cons] at h
      rcases h with h | h
      · exact .inr (h ▸ List.mem_cons_self ..)
      · exact (ih h).imp_right (List.mem_cons_of_mem _)

theorem length_set : (set k v m).length = if (find k m).isSome then m.length else m.length + 1 := by
  induction m with
  | nil => rfl
  | cons e m ih =>
    obtain ⟨a, b⟩ := e
    by_cases ha : a = k
    · simp [set, find, ha]
    · simp only [set, find, ha, if_false, List.length_cons, ih]
      split <;> rfl

theorem erase_eq_filter : erase k m = m.filter fun e => e.1 ≠ k := by
  induction m with
  | nil => rfl
  | cons e m ih =>
    obtain ⟨a, b⟩ := e
    by_cases ha : a = k <;> simp [erase, ha, ih]

theorem mem_erase {x : α × β} : x ∈ erase k m ↔ x.1 ≠ k ∧ x ∈ m := by
  rw [erase_eq_filter, List.mem_filter, decide_eq_true_iff, and_comm]

theorem length_erase_add_one (hm : (m.map Prod.fst).Nodup) (h : (find k m).isSome) :
    (erase k m).length + 1 = m.length := by
  induction m with
  | nil => cases h
  | cons e m ih =>
    obtain ⟨a, b⟩ := e
    rw [List.map_cons, List.nodup_cons] at hm
    by_cases ha : a = k
    · subst ha
      have hnone : find a m = none := (find_eq_none_iff a m).mpr hm.1
      simp only [erase, if_true, List.length_cons]
      rw [erase_eq_filter, List.filter_eq_self.mpr]
      intro e he
      simpa using fun h => hm.1 (List.mem_map.mpr ⟨e, he, h⟩)
    · rw [find, if_neg ha] at h
      simp only [erase, ha, if_false, List.length_cons, ih hm.2 h]

theorem erase_append_cons (A R : List (α × β)) (hA : k ∉ A.map Prod.fst)
    (hR : k ∉ R.map Prod.fst) : erase k (A ++ (k, v) :: R) = A ++ R := by
  have keep : ∀ l : List (α × β), k ∉ l.map Prod.fst → (l.filter fun e => e.1 ≠ k) = l :=
    fun l hl => List.filter_eq_self.mpr fun e he =>
      decide_eq_true fun h => hl (List.mem_map.mpr ⟨e, he, h⟩)
  rw [erase_eq_filter, List.filter_append, List.filter_cons_of_neg (by simp), keep A hA, keep R hR]

theorem find_append (A B : List (α × β)) : find k (A ++ B) = (find k A).or (find k B) := by
  induction A with
  | nil => rfl
  | cons e A ih =>
    obtain ⟨a, b⟩ := e
    by_cases ha : a = k <;> simp [find, ha, ih]

theorem find_eq_some_iff {v : β} :
    find k m = some v ↔ ∃ A B, m = A ++ (k, v) :: B ∧ k ∉ A.map Prod.fst := by
  induction m with
  | nil => simp [find]
  | cons e m ih =>
    obtain ⟨a, b⟩ := e
    by_cases ha : a = k
    · subst ha
      simp only [find, if_true, Option.some.injEq]
      constructor
      · rintro rfl
        exact ⟨[], m, rfl, by simp⟩
      · rintro ⟨A, B, hm, hA⟩
        cases A with
        | nil => exact (Prod.mk.inj (List.cons.inj hm).1).2
        | cons x A =>
          rw [List.cons_append, List.cons.injEq] at hm
          rw [← hm.1] at hA
          exact absurd (by simp) hA
    · rw [find, if_neg ha, ih]
      constructor
      · rintro ⟨A, B, rfl, hA⟩
        exact ⟨(a, b) :: A, B, rfl, by simp [hA, Ne.symm ha]⟩
      · rintro ⟨A, B, hm, hA⟩
        cases A with
        | nil => exact absurd (Prod.mk.inj (List.cons.inj hm).1).1 ha
        | cons x A =>
          rw [List.cons_append, List.cons.injEq] at hm
          exact ⟨A, B, hm.2, fun h => hA (List.mem_cons_of_mem _ h)⟩

theorem find_eq_some_iff_mem (hm : (m.map Prod.fst).Nodup) {v : β} :
    find k m = some v ↔ (k, v) ∈ m := by
  induction m with
  | nil => simp [find]
  | cons e m ih =>
    obtain ⟨a, b⟩ := e
    rw [List.map_cons, List.nodup_cons] at hm
    by_cases ha : a = k
    · subst ha
      have hnot : (a, v) ∉ m := fun h => hm.1 (List.mem_map.mpr ⟨_, h, rfl⟩)
      simp [find, hnot, eq_comm]
    · simp [find, ha, ih hm.2, Ne.symm ha]

theorem find_of_perm {m' : List (α × β)} (h : m.Perm m') (hm : (m.map Prod.fst).Nodup) :
    find k m = find k m' := by
  have hm' : (m'.map Prod.fst).Nodup := (h.map Prod.fst).nodup_iff.mp hm
  apply Option.ext
  intro v
  rw [find_eq_some_iff_mem k m hm, find_eq_some_iff_mem k m' hm', h.mem_iff]

theorem set_of_not_mem (hm : k ∉ m.map Prod.fst) : set k v m = m ++ [(k, v)] := by
  induction m with
  | nil => rfl
  | cons e m ih =>
    obtain ⟨a, b⟩ := e
    simp only [List.map_cons, List.mem_cons, not_or] at hm
    simp [set, Ne.symm hm.1, ih hm.2]

theorem set_append_of_not_mem (A B : List (α × β)) (hA : k ∉ A.map Prod.fst) :
    set k v (A ++ B) = A ++ set k v B := by
  induction A with
  | nil => rfl
  | cons e A ih =>
    obtain ⟨a, b⟩ := e
    simp only [List.map_cons, List.mem_cons, not_or] at hA
    simp [set, Ne.symm hA.1, ih hA.2]

theorem erase_of_not_mem (hm : k ∉ m.map Prod.fst) : erase k m = m := by
  rw [erase_eq_filter, List.filter_eq_self]
  intro e he
  simpa using fun h => hm (List.mem_map.mpr ⟨e, he, h⟩)

theorem erase_append (A B : List (α × β)) : erase k (A ++ B) = erase k A ++ erase k B := by
  simp only [erase_eq_filter, List.filter_append]

theorem erase_perm {m' : List (α × β)} (h : m.Perm m') : (erase k m).Perm (erase k m') := by
  rw [erase_eq_filter, erase_eq_filter]
  exact h.filter _

theorem set_perm_cons_erase (hm : (m.map Prod.fst).Nodup) : (set k v m).Perm ((k, v) :: erase k m) := by
  induction m with
  | nil => rfl
  | cons e m ih =>
    obtain ⟨a, b⟩ := e
    rw [List.map_cons, List.nodup_cons] at hm
    by_cases ha : a = k
    · subst ha
      simp [set, erase, erase_of_not_mem a m hm.1]
    · simp only [set, erase, ha, if_false]
      exact ((ih hm.2).cons _).trans (List.Perm.swap _ _ _)

theorem set_perm {m' : List (α × β)} (h : m.Perm m') (hm : (m.map Prod.fst).Nodup) :
    (set k v m).Perm (set k v m') := by
  have hm' : (m'.map Prod.fst).Nodup := (h.map Prod.fst).nodup_iff.mp hm
  exact (set_perm_cons_erase k v m hm).trans (((erase_perm k m h).cons _).trans
    (set_perm_cons_erase k v m' hm').symm)

theorem set_append_perm (A B : List (α × β)) (hB : k ∉ B.map Prod.fst) :
    (set k v (A ++ B)).Perm (set k v A ++ B) := by
  by_cases hA : k ∈ A.map Prod.fst
  · induction A with
    | nil => simp at hA
    | cons e A ih =>
      obtain ⟨a, b⟩ := e
      by_cases ha : a = k
      · simp [set, ha]
      · simp only [List.map_cons, List.mem_cons, Ne.symm ha, false_or] at hA
        simpa [set, ha] using ih hA
  · rw [set_append_of_not_mem k v A B hA, set_of_not_mem k v B hB, set_of_not_mem k v A hA]
    simpa using (List.perm_append_singleton (k, v) B).symm.append_left A |>.symm

section MapKey

variable {γ : Type} [DecidableEq γ] {f : α → γ}

def mapKey (f : α → γ) (m : List (α × β)) : List (γ × β) := m.map fun e => (f e.1, e.2)

theorem find_mapKey (hf : Function.Injective f) : find (f k) (mapKey f m) = find k m := by
  induction m with
  | nil => rfl
  | cons e m ih =>
    obtain ⟨a, b⟩ := e
    by_cases ha : a = k
    · simp [mapKey, find, ha]
    · simpa [mapKey, find, ha, hf.eq_iff] using ih

omit [DecidableEq α] in
theorem find_mapKey_of_not_mem {x : γ} (hx : ∀ a, f a ≠ x) : find x (mapKey f m) = none := by
  rw [find_eq_none_iff]
  simp only [mapKey, List.map_map, List.mem_map, not_exists, not_and]
  exact fun e _ => hx e.1

theorem set_mapKey (hf : Function.Injective f) : set (f k) v (mapKey f m) = mapKey f (set k v m) := by
  induction m with
  | nil => rfl
  | cons e m ih =>
    obtain ⟨a, b⟩ := e
    by_cases ha : a = k
    · subst ha
      simp [mapKey, set]
    · have : f a ≠ f k := fun h => ha (hf h)
      simp only [mapKey] at ih ⊢
      simp [set, ha, this, ih]

theorem erase_mapKey (hf : Function.Injective f) : erase (f k) (mapKey f m) = mapKey f (erase k m) := by
  simp only [erase_eq_filter, mapKey, List.filter_map, Function.comp_def, hf.ne_iff]

end MapKey

section MapValue

variable {γ : Type} (f : β → γ)

theorem find_map_snd : find k (m.map fun e => (e.1, f e.2)) = (find k m).map f := by
  induction m with
  | nil => rfl
  | cons e m ih =>
    obtain ⟨a, b⟩ := e
    by_cases ha : a = k <;> simp [find, ha, ih]

theorem set_map_snd :
    (set k v m).map (fun e => (e.1, f e.2)) = set k (f v) (m.map fun e => (e.1, f e.2)) := by
  induction m with
  | nil => rfl
  | cons e m ih =>
    obtain ⟨a, b⟩ := e
    by_cases ha : a = k <;> simp [set, ha, ih]

theorem set_map_snd_of_find {w : β} (h : find k m = some w) (hv : f v = f w) :
    (set k v m).map (fun e => (e.1, f e.2)) = m.map fun e => (e.1, f e.2) := by
  induction m with
  | nil => simp [find] at h
  | cons e m ih =>
    obtain ⟨a, b⟩ := e
    by_cases ha : a = k
    · subst ha
      simp only [find, if_true, Option.some.injEq] at h
      simp [set, hv, h]
    · simp only [find, ha, if_false] at h
      simp [set, ha, ih h]

end MapValue

theorem find_foldl_set {γ : Type} (f : β → γ) (L : List (α × β)) (m₀ : List (α × γ))
    (hL : (L.map Prod.fst).Nodup) :
    find k (L.foldl (fun m e => set e.1 (f e.2) m) m₀) = ((find k L).map f).or (find k m₀) := by
  induction L generalizing m₀ with
  | nil => rfl
  | cons e L ih =>
    obtain ⟨a, b⟩ := e
    rw [List.map_cons, List.nodup_cons] at hL
    rw [List.foldl_cons, ih _ hL.2]
    by_cases ha : a = k
    · subst ha
      rw [(find_eq_none_iff a L).mpr hL.1, find_set_self]
      simp [find]
    · rw [find_set_of_ne _ _ _ _ (Ne.symm ha)]
      simp [find, ha]

theorem foldl_set_of_nodup (L acc : List (α × β)) (h : ((acc ++ L).map Prod.fst).Nodup) :
    L.foldl (fun m e => set e.1 e.2 m) acc = acc ++ L := by
  induction L generalizing acc with
  | nil => simp
  | cons e L ih =>
    have hk : e.1 ∉ acc.map Prod.fst := by
      rw [List.map_append, List.nodup_append] at h
      exact fun hm => h.2.2 _ hm _ (List.mem_map_of_mem List.mem_cons_self) rfl
    rw [List.foldl_cons, set_of_not_mem _ _ _ hk, ih (acc ++ [(e.1, e.2)]) (by simpa using h)]
    simp

end Lemmas

structure Map (α β : Type) where
  entries : List (α × β)
  nodup : (entries.map Prod.fst).Nodup

namespace Map

variable {α β : Type} [DecidableEq α]

def empty : Map α β := ⟨[], List.nodup_nil⟩

def find (m : Map α β) (k : α) : Option β := Assoc.find k m.entries

def set (m : Map α β) (k : α) (v : β) : Map α β :=
  ⟨Assoc.set k v m.entries, nodup_keys_set k v m.entries m.nodup⟩

def erase (m : Map α β) (k : α) : Map α β :=
  ⟨Assoc.erase k m.entries, nodup_keys_erase k m.entries m.nodup⟩

def filter (m : Map α β) (p : α × β → Bool) : Map α β :=
  ⟨m.entries.filter p, (List.filter_sublist.map Prod.fst).nodup m.nodup⟩

def len (m : Map α β) : Nat := m.entries.length

@[simp] theorem find_empty (k : α) : (empty : Map α β).find k = none := rfl

theorem len_set (m : Map α β) (k : α) (v : β) :
    (m.set k v).len = if (m.find k).isSome then m.len else m.len + 1 :=
  Assoc.length_set k v m.entries

theorem len_erase_add_one {m : Map α β} {k : α} (h : (m.find k).isSome) :
    (m.erase k).len + 1 = m.len :=
  Assoc.length_erase_add_one k m.entries m.nodup h

theorem erase_of_find_eq_none {m : Map α β} {k : α} (h : m.find k = none) : m.erase k = m := by
  obtain ⟨E, hE⟩ := m
  simp only [erase, mk.injEq]
  exact Assoc.erase_of_not_mem _ _ ((Assoc.find_eq_none_iff _ _).mp h)

theorem entries_foldl_set {γ : Type} (f : γ → β) (L : List (α × γ)) (m : Map α β) :
    (L.foldl (fun m e => m.set e.1 (f e.2)) m).entries =
      L.foldl (fun l e => Assoc.set e.1 (f e.2) l) m.entries := by
  induction L generalizing m with
  | nil => rfl
  | cons e L ih => exact ih (m.set e.1 (f e.2))

theorem find_foldl_set {γ : Type} (f : γ → β) (L : List (α × γ)) (m : Map α β)
    (hL : (L.map Prod.fst).Nodup) (k : α) :
    (L.foldl (fun m e => m.set e.1 (f e.2)) m).find k = ((Assoc.find k L).map f).or (m.find k) := by
  rw [find, entries_foldl_set, Assoc.find_foldl_set k f L m.entries hL, find]

end Map

end NatsServer.Lib.Assoc
