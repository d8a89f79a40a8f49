import UnreliableFS.Interaction.Prog

/-!
# Weakest preconditions

`p.wp h Q s`: started in `s`, the program ends, with a result and a state that
`Q` holds of. The rules follow the program; `wp_iff_run` ties them to `run`.
-/

namespace Interaction.Prog

variable {S T : Sig} {σ τ : Type} {α γ : Type}

def wp (h : Handler S σ) : Prog S α → (α → σ → Prop) → σ → Prop
  | .done a, Q, s => Q a s
  | .call c k, Q, s => (k (h c s).1).wp h Q (h c s).2
  | .stuck, _, _ => False

variable {h : Handler S σ} {p : Prog S α} {Q R : α → σ → Prop} {s : σ}

@[simp] theorem wp_done (a : α) : (Prog.done a).wp h Q s ↔ Q a s := .rfl
@[simp] theorem wp_call (c : S.Call) (k : S.Reply c → Prog S α) :
    (Prog.call c k).wp h Q s ↔ (k (h c s).1).wp h Q (h c s).2 := .rfl
@[simp] theorem wp_stuck : (Prog.stuck : Prog S α).wp h Q s ↔ False := .rfl

theorem wp_iff_run : p.wp h Q s ↔ ∃ a s', p.run h s = some (a, s') ∧ Q a s' := by
  induction p generalizing s with
  | done a =>
    simp only [wp_done, run_done, Option.some.injEq, Prod.mk.injEq]
    exact ⟨fun hq => ⟨a, s, ⟨rfl, rfl⟩, hq⟩, by rintro ⟨_, _, ⟨rfl, rfl⟩, hq⟩; exact hq⟩
  | call c k ih => exact ih _
  | stuck => simp

theorem wp_bind (p : Prog S α) (f : α → Prog S γ) {Q : γ → σ → Prop} :
    (p >>= f).wp h Q s ↔ p.wp h (fun a s' => (f a).wp h Q s') s := by
  induction p generalizing s with
  | done a => rfl
  | call c k ih => exact ih _
  | stuck => rfl

theorem wp.mono (hp : p.wp h Q s) (hQ : ∀ a s', Q a s' → R a s') : p.wp h R s := by
  obtain ⟨a, s', hr, hq⟩ := wp_iff_run.mp hp
  exact wp_iff_run.mpr ⟨a, s', hr, hQ a s' hq⟩

theorem wp.run {a : α} {s' : σ} (hp : p.wp h Q s) (hr : p.run h s = some (a, s')) : Q a s' := by
  obtain ⟨b, t, hb, hq⟩ := wp_iff_run.mp hp
  rw [hb] at hr
  cases hr
  exact hq

end Interaction.Prog
