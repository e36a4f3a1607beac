import Mathlib.Data.List.Basic

/-!
# Two computations that agree

`Agree R x y` compares two fallible computations: both fail with the same error, or both return,
with results related by `R`. It is how one program is shown to compute what another does, step by
step: when each step of the first agrees with the matching step of the second, so do a bind, a
branch on the same condition and a fold over the same list; and results that agree, each read
through its own map, are equal.
-/

namespace NatsServer.Lib

variable {ε α β γ δ : Type} {R : α → β → Prop} {S : γ → δ → Prop}

def Agree (R : α → β → Prop) : Except ε α → Except ε β → Prop
  | .ok a, .ok b => R a b
  | .error e, .error e' => e = e'
  | _, _ => False

@[simp] theorem agree_ok {a : α} {b : β} : Agree (ε := ε) R (.ok a) (.ok b) ↔ R a b := Iff.rfl

@[simp] theorem agree_error {e e' : ε} :
    Agree R (.error e : Except ε α) (.error e' : Except ε β) ↔ e = e' := Iff.rfl

theorem Agree.refl {x : Except ε α} {R : α → α → Prop} (h : ∀ a, R a a) : Agree R x x := by
  cases x with
  | ok a => exact h a
  | error e => rfl

theorem Agree.bind {x : Except ε α} {y : Except ε β} {f : α → Except ε γ} {g : β → Except ε δ}
    (hxy : Agree R x y) (hf : ∀ a b, R a b → Agree S (f a) (g b)) :
    Agree S (x >>= f) (y >>= g) := by
  cases x <;> cases y
  case ok.ok a b => exact hf a b hxy
  case error.error e e' => exact hxy
  all_goals exact absurd hxy id

theorem Agree.ite {c : Prop} [Decidable c] {a b : Except ε α} {a' b' : Except ε β}
    (ha : Agree R a a') (hb : Agree R b b') :
    Agree R (if c then a else b) (if c then a' else b') := by
  split_ifs
  · exact ha
  · exact hb

theorem Agree.foldlM {f : α → γ → Except ε α} {g : β → γ → Except ε β} :
    ∀ (l : List γ), (∀ a b x, x ∈ l → R a b → Agree R (f a x) (g b x)) →
      ∀ (a : α) (b : β), R a b → Agree R (l.foldlM f a) (l.foldlM g b)
  | [], _, _, _, hab => hab
  | x :: l, hf, a, b, hab =>
    (hf a b x List.mem_cons_self hab).bind fun a' b' h' =>
      Agree.foldlM l (fun a b y hy => hf a b y (List.mem_cons_of_mem x hy)) a' b' h'

theorem Agree.map_eq {x : Except ε α} {y : Except ε β} {f : α → γ} {g : β → γ} (hxy : Agree R x y)
    (h : ∀ a b, R a b → f a = g b) : f <$> x = g <$> y := by
  cases x <;> cases y
  case ok.ok a b => exact congrArg Except.ok (h a b hxy)
  case error.error e e' => exact congrArg Except.error hxy
  all_goals exact absurd hxy id

end NatsServer.Lib
