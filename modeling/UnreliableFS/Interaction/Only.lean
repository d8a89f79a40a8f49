import UnreliableFS.Interaction.Prog

/-!
# Programs of some calls only

`p.Only C`: every call the program may come to satisfies `C`, and it never gets
stuck. What such calls do not look at makes no difference to the program.
`p.Every C` is the same of a program that may get stuck. `p.Closing C u`: after calls
of `C` it makes one call `u`, and with that ends.
-/

namespace Interaction.Prog

variable {S T : Sig} {σ τ : Type} {α γ : Type} {C C' : S.Call → Prop}

inductive Only (C : S.Call → Prop) : Prog S α → Prop
  | done (a : α) : Only C (.done a)
  | call {c : S.Call} {k : S.Reply c → Prog S α} : C c → (∀ r, Only C (k r)) → Only C (.call c k)

namespace Only

variable {p : Prog S α} {f : α → Prog S γ} {h : Handler S σ} {s : σ}

theorem of_call {c : S.Call} {k : S.Reply c → Prog S α} (hp : Only C (.call c k)) :
    C c ∧ ∀ r, Only C (k r) := by
  cases hp with
  | call hc hk => exact ⟨hc, hk⟩

theorem mono (hp : p.Only C) (hC : ∀ c, C c → C' c) : p.Only C' := by
  induction hp with
  | done a => exact .done a
  | call hc _ ih => exact .call (hC _ hc) ih

theorem ask {c : S.Call} (hc : C c) : (Prog.ask c).Only C := .call hc fun r => .done r

theorem bind (hp : p.Only C) (hf : ∀ a, (f a).Only C) : (p >>= f).Only C := by
  induction hp with
  | done a => exact hf a
  | call hc _ ih => exact .call hc ih

theorem run (hp : p.Only C) (h : Handler S σ) (s : σ) : ∃ a s', p.run h s = some (a, s') := by
  induction hp generalizing s with
  | done a => exact ⟨a, s, rfl⟩
  | call _ _ ih => exact ih _ _

/-- Calls that do not look at a part of the state, and leave it alone. -/
def Ignores (P : Part σ τ) (h : Handler S σ) (c : S.Call) : Prop :=
  ∀ t s, h c (P.put t s) = ((h c s).1, P.put t (h c s).2)

/-- A program of such calls does not either. -/
theorem run_put {P : Part σ τ} (hp : p.Only (Ignores P h)) (t : τ) (s : σ) :
    p.run h (P.put t s) = (p.run h s).map fun r => (r.1, P.put t r.2) := by
  induction hp generalizing s with
  | done a => rfl
  | call hc _ ih => simp only [run_call, hc t s, ih]

theorem calls_put {P : Part σ τ} (hp : p.Only (Ignores P h)) (t : τ) (s : σ) :
    (p.trace h (P.put t s)).map (·.call) = (p.trace h s).map (·.call) := by
  induction hp generalizing s with
  | done a => rfl
  | call hc _ ih => simp only [trace_call, List.map_cons, hc t s, ih]

end Only

-- ---------------------------------------------------------------------------
-- Programs that may get stuck
-- ---------------------------------------------------------------------------

def Every (C : S.Call → Prop) : Prog S α → Prop
  | .done _ => True
  | .call c k => C c ∧ ∀ r, (k r).Every C
  | .stuck => True

namespace Every

theorem bind {p : Prog S α} {f : α → Prog S γ} (hp : p.Every C) (hf : ∀ a, (f a).Every C) :
    (p >>= f).Every C := by
  induction p with
  | done a => exact hf a
  | call c k ih => exact ⟨hp.1, fun r => ih r (hp.2 r)⟩
  | stuck => trivial

theorem trace {p : Prog S α} (hp : p.Every C) (h : Handler S σ) (s : σ) :
    ∀ e ∈ p.trace h s, C e.call := by
  induction p generalizing s with
  | done a => exact fun _ he => nomatch he
  | call c k ih =>
    intro e he
    obtain rfl | he := List.mem_cons.mp he
    · exact hp.1
    · exact ih _ (hp.2 _) _ e he
  | stuck => exact fun _ he => nomatch he

end Every

-- ---------------------------------------------------------------------------
-- Programs with a last call
-- ---------------------------------------------------------------------------

inductive Closing (C : S.Call → Prop) (u : S.Call) : Prog S α → Prop
  | last (k : S.Reply u → α) : Closing C u (.call u fun r => .done (k r))
  | call {c : S.Call} {k : S.Reply c → Prog S α} :
      C c → (∀ r, Closing C u (k r)) → Closing C u (.call c k)

namespace Closing

variable {u : S.Call} {p : Prog S α} {f : α → Prog S γ}

theorem only (hp : p.Closing C u) (hC : ∀ c, C c → C' c) (hu : C' u) : p.Only C' := by
  induction hp with
  | last k => exact .call hu fun r => .done (k r)
  | call hc _ ih => exact .call (hC _ hc) ih

theorem of_only (hp : p.Only C) (hf : ∀ a, (f a).Closing C u) : (p >>= f).Closing C u := by
  induction hp with
  | done a => exact hf a
  | call hc _ ih => exact .call hc ih

end Closing

end Interaction.Prog
