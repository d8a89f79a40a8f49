import UnreliableFS.Interaction.Prog

/-!
# Programs in lockstep

A contract says what the calls of an environment may be answered with. Two programs
are in lockstep if they make the same calls, whatever the contract allows as
answers, and their results are related at the end. In an environment that keeps to
the contract one of them then runs as the other does (`Lockstep.run`).
-/

namespace Interaction

abbrev Contract (S : Sig) := (c : S.Call) → S.Reply c → Prop

variable {S : Sig} {σ α α' γ γ' : Type} {C : Contract S} {R : α → α' → Prop}

def Handler.Keeps (h : Handler S σ) (C : Contract S) : Prop := ∀ c s, C c (h c s).1

namespace Prog

inductive Lockstep (C : Contract S) (R : α → α' → Prop) : Prog S α → Prog S α' → Prop
  | done {a : α} {a' : α'} : R a a' → Lockstep C R (.done a) (.done a')
  | call {c : S.Call} {k : S.Reply c → Prog S α} {k' : S.Reply c → Prog S α'} :
      (∀ r, C c r → Lockstep C R (k r) (k' r)) → Lockstep C R (.call c k) (.call c k')
  | stuck : Lockstep C R .stuck .stuck

namespace Lockstep

variable {p : Prog S α} {q : Prog S α'}

theorem bind {Q : γ → γ' → Prop} {f : α → Prog S γ} {g : α' → Prog S γ'} (h : Lockstep C R p q)
    (hfg : ∀ a a', R a a' → Lockstep C Q (f a) (g a')) : Lockstep C Q (p >>= f) (q >>= g) := by
  induction h with
  | done hr => exact hfg _ _ hr
  | call _ ih => exact .call ih
  | stuck => exact .stuck

/-- The second runs as the first does, to a related result. -/
theorem run {h : Handler S σ} {a : α} {s s' : σ} (hp : Lockstep C R p q) (hk : h.Keeps C)
    (hr : p.run h s = some (a, s')) : ∃ a', q.run h s = some (a', s') ∧ R a a' := by
  induction hp generalizing s with
  | done hR =>
    cases hr
    exact ⟨_, rfl, hR⟩
  | @call c k k' _ ih => exact ih _ (hk c s) hr
  | stuck => cases hr

end Lockstep

end Prog

end Interaction
