import Mathlib.Data.List.Basic

/-!
# Results within a postcondition

`Within E P r` says that the computation `r` returns a value with `P`, or fails with an error that
`E` allows. It is the postcondition of a fallible program that may fail, but only in the ways `E`
names: an error its caller reports, say, and no panic and no fuel run out. A bind, a map and a
fold over a list keep it when each of their steps does.
-/

namespace NatsServer.Lib

variable {ε α β : Type} {E : ε → Prop} {P : α → Prop} {Q : β → Prop}

def Within (E : ε → Prop) (P : α → Prop) : Except ε α → Prop
  | .ok a => P a
  | .error e => E e

@[simp] theorem within_ok {a : α} : Within E P (.ok a) ↔ P a := Iff.rfl

@[simp] theorem within_error {e : ε} : Within E P (.error e : Except ε α) ↔ E e := Iff.rfl

theorem Within.mono {x : Except ε α} {P' : α → Prop} (hx : Within E P x) (h : ∀ a, P a → P' a) :
    Within E P' x := by
  cases x with
  | ok a => exact h a hx
  | error e => exact hx

theorem Within.bind {x : Except ε α} {f : α → Except ε β} (hx : Within E P x)
    (hf : ∀ a, P a → Within E Q (f a)) : Within E Q (x >>= f) := by
  cases x with
  | ok a => exact hf a hx
  | error e => exact hx

theorem Within.map {x : Except ε α} {f : α → β} (hx : Within E P x) (hf : ∀ a, P a → Q (f a)) :
    Within E Q (f <$> x) := by
  cases x with
  | ok a => exact hf a hx
  | error e => exact hx

theorem Within.ite {c : Prop} [Decidable c] {a b : Except ε α} (ha : Within E P a)
    (hb : Within E P b) : Within E P (if c then a else b) := by
  split_ifs
  · exact ha
  · exact hb

theorem Within.foldlM {f : β → α → Except ε β} (hf : ∀ b a, Q b → Within E Q (f b a)) :
    ∀ (l : List α) (b : β), Q b → Within E Q (l.foldlM f b)
  | [], _, hb => hb
  | a :: l, b, hb => (hf b a hb).bind fun b' hb' => Within.foldlM hf l b' hb'

end NatsServer.Lib
