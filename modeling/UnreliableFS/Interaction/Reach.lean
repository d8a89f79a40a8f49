import Mathlib.Logic.Function.Basic

/-!
# Runs of a machine

A `Machine` takes one input at a time; `Reachable m G s₀ s` says that some
finite run of it leads from `s₀` to `s` with every input meeting the guard `G`
in the state it is fed to. What is true of `s₀` and kept by every guarded step
is true of every reachable state (`Reachable.invariant`).

States keep tables by number; the two lemmas at the end read one that has been
changed in one place.
-/

namespace Interaction

/-- A step on an input: an output and a new state, or no defined behaviour. -/
abbrev Machine (σ ι ο : Type) := σ → ι → Option (ο × σ)

variable {σ ι ο : Type}

inductive Reachable (m : Machine σ ι ο) (G : σ → ι → Prop) (s₀ : σ) : σ → Prop
  | refl : Reachable m G s₀ s₀
  | step {s s' : σ} {i : ι} {o : ο} :
      Reachable m G s₀ s → G s i → m s i = some (o, s') → Reachable m G s₀ s'

namespace Reachable

variable {m : Machine σ ι ο} {G : σ → ι → Prop} {s₀ s₁ : σ}

/-- What guarded steps keep holds in every state they reach. -/
theorem invariant {I : σ → Prop}
    (hI : ∀ s i o s', I s → G s i → m s i = some (o, s') → I s')
    (h₀ : I s₀) (h : Reachable m G s₀ s₁) : I s₁ := by
  induction h with
  | refl => exact h₀
  | step _ hg hm ih => exact hI _ _ _ _ ih hg hm

theorem head {s s' : σ} {i : ι} {o : ο} (hg : G s i) (hm : m s i = some (o, s'))
    (h : Reachable m G s' s₁) : Reachable m G s s₁ := by
  induction h with
  | refl => exact .step .refl hg hm
  | step _ hg' hm' ih => exact ih.step hg' hm'

end Reachable

-- ---------------------------------------------------------------------------
-- Tables
-- ---------------------------------------------------------------------------

open Function

theorem update_none_eq {α : Type} {f : Nat → Option α} {i j : Nat} {x : α} :
    update f i none j = some x ↔ j ≠ i ∧ f j = some x := by
  by_cases h : j = i <;> simp [h]

theorem update_some_eq {α : Type} {f : Nat → Option α} {i j : Nat} {a x : α} :
    update f i (some a) j = some x ↔ j = i ∧ a = x ∨ j ≠ i ∧ f j = some x := by
  by_cases h : j = i <;> simp [h]

end Interaction
