import Mathlib.Data.List.Basic

/-!
# Runs of a step function, invariants and simulations

A component with state `σ` that accepts inputs `ι` is its step function. `run step s xs` is
the state after the inputs `xs`, in order. An invariant holds along every run when it holds
initially and every step keeps it (`run_invariant`); a relation between two such components
is kept along every common run when every step keeps it (`run_simulation`), which is how a
concrete model is shown to refine an abstract one.
-/

namespace NatsServer.Lib

variable {σ τ ι : Type}

def run (step : σ → ι → σ) (s : σ) (xs : List ι) : σ := xs.foldl step s

@[simp] theorem run_nil (step : σ → ι → σ) (s : σ) : run step s [] = s := rfl

@[simp] theorem run_cons (step : σ → ι → σ) (s : σ) (x : ι) (xs : List ι) :
    run step s (x :: xs) = run step (step s x) xs := rfl

theorem run_append (step : σ → ι → σ) (s : σ) (xs ys : List ι) :
    run step s (xs ++ ys) = run step (run step s xs) ys := by
  simp [run, List.foldl_append]

theorem run_invariant {step : σ → ι → σ} (P : σ → Prop) (hstep : ∀ s x, P s → P (step s x))
    {s : σ} (hs : P s) (xs : List ι) : P (run step s xs) := by
  induction xs generalizing s with
  | nil => exact hs
  | cons x xs ih => exact ih (hstep s x hs)

theorem run_invariant_on {step : σ → ι → σ} (V : ι → Prop) (P : σ → Prop)
    (hstep : ∀ s x, V x → P s → P (step s x)) {s : σ} (hs : P s) (xs : List ι)
    (hxs : ∀ x ∈ xs, V x) : P (run step s xs) := by
  induction xs generalizing s with
  | nil => exact hs
  | cons x xs ih =>
    exact ih (hstep s x (hxs x (List.mem_cons_self ..)) hs)
      (fun y hy => hxs y (List.mem_cons_of_mem _ hy))

theorem run_simulation {f : σ → ι → σ} {g : τ → ι → τ} (V : ι → Prop) (R : σ → τ → Prop)
    (hstep : ∀ s t x, V x → R s t → R (f s x) (g t x)) {s : σ} {t : τ} (h : R s t)
    (xs : List ι) (hxs : ∀ x ∈ xs, V x) : R (run f s xs) (run g t xs) := by
  induction xs generalizing s t with
  | nil => exact h
  | cons x xs ih =>
    have hx : V x := hxs x (List.mem_cons_self ..)
    exact ih (hstep s t x hx h) (fun y hy => hxs y (List.mem_cons_of_mem _ hy))

def Guarded (g : τ → ι → τ) (V : τ → ι → Prop) : τ → List ι → Prop
  | _, [] => True
  | t, x :: xs => V t x ∧ Guarded g V (g t x) xs

instance decGuarded (g : τ → ι → τ) (V : τ → ι → Prop) [∀ t x, Decidable (V t x)] :
    (t : τ) → (xs : List ι) → Decidable (Guarded g V t xs)
  | _, [] => isTrue trivial
  | t, x :: xs =>
    haveI := decGuarded g V (g t x) xs
    inferInstanceAs (Decidable (V t x ∧ Guarded g V (g t x) xs))

theorem run_simulation_guarded {f : σ → ι → σ} {g : τ → ι → τ} (V : τ → ι → Prop)
    (R : σ → τ → Prop) (hstep : ∀ s t x, V t x → R s t → R (f s x) (g t x)) {s : σ} {t : τ}
    (h : R s t) (xs : List ι) (hxs : Guarded g V t xs) : R (run f s xs) (run g t xs) := by
  induction xs generalizing s t with
  | nil => exact h
  | cons x xs ih => exact ih (hstep s t x hxs.1 h) hxs.2

theorem foldl_prefix {P : List ι → σ → Prop} (f : σ → ι → σ) (xs : List ι) {s : σ}
    (h0 : P [] s) (hstep : ∀ ys x zs s, ys ++ x :: zs = xs → P ys s → P (ys ++ [x]) (f s x)) :
    P xs (xs.foldl f s) := by
  -- the fold is run on the suffix `zs` after the prefix `ys` is done
  suffices h : ∀ ys zs s, ys ++ zs = xs → P ys s → P xs (zs.foldl f s) from h [] xs s rfl h0
  intro ys zs
  induction zs generalizing ys with
  | nil => intro s hxs hs; rw [List.append_nil] at hxs; exact hxs ▸ hs
  | cons z zs ih =>
    intro s hxs hs
    exact ih (ys ++ [z]) (f s z) (by rw [List.append_assoc]; exact hxs) (hstep ys z zs s hxs hs)

end NatsServer.Lib
