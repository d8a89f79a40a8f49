import UnreliableFS.Interaction.Judge

/-!
# Programs that agree as far as they observe the same

Of some replies something is observed. Two programs agree if, wherever both end in
`ok` after the same has been observed, their results are related: whatever else they
ask, and of which environments. A program that observes nothing agrees with another
such program by what is known of their results.
-/

namespace Interaction

variable {S : Sig} {σ δ : Type} {ε α β γ γ' : Type} {log : (c : S.Call) → S.Reply c → Option δ}

def observed (log : (c : S.Call) → S.Reply c → Option δ) (es : List (Event S σ)) : List δ :=
  es.filterMap fun e => log e.call e.reply

namespace Prog

/-- In some environment it ends in `ok` with a result, and this has been observed. -/
inductive Yields (log : (c : S.Call) → S.Reply c → Option δ) : Prog S (Except ε α) → List δ → α → Prop
  | done (a : α) : Yields log (.done (.ok a)) [] a
  | call {c : S.Call} {k : S.Reply c → Prog S (Except ε α)} {ds : List δ} {a : α} (x : S.Reply c)
      (h : Yields log (k x) ds a) : Yields log (.call c k) ((log c x).toList ++ ds) a

theorem yields_of_run {p : Prog S (Except ε α)} {h : Handler S σ} {s s' : σ} {a : α}
    (hrun : p.run h s = some (.ok a, s')) : p.Yields log (observed log (p.trace h s)) a := by
  induction p generalizing s with
  | done out =>
    cases hrun
    exact .done a
  | call c k ih =>
    have hobserved : observed log ((Prog.call c k).trace h s) =
        (log c (h c s).1).toList ++ observed log ((k (h c s).1).trace h (h c s).2) := by
      simp only [observed, trace_call, List.filterMap_cons]
      cases log c (h c s).1 with
      | none => rfl
      | some d => rfl
    rw [hobserved]
    exact .call _ (ih _ hrun)
  | stuck => simp at hrun

theorem Yields.of_andThen {p : Prog S (Except ε α)} {f : α → Prog S (Except ε γ)} {ds : List δ} {b : γ}
    (h : (p.andThen f).Yields log ds b) :
    ∃ ds₁ ds₂ a, ds = ds₁ ++ ds₂ ∧ p.Yields log ds₁ a ∧ (f a).Yields log ds₂ b := by
  induction p generalizing ds with
  | done out =>
    cases out with
    | ok a => exact ⟨[], ds, a, rfl, .done a, h⟩
    | error err => cases h
  | call c k ih =>
    rw [andThen_call] at h
    cases h with
    | call x h =>
      obtain ⟨ds₁, ds₂, a, rfl, h₁, h₂⟩ := ih x h
      exact ⟨_, ds₂, a, (List.append_assoc ..).symm, .call x h₁, h₂⟩
  | stuck => cases h

def Quiet (log : (c : S.Call) → S.Reply c → Option δ) (P : α → Prop) : Prog S (Except ε α) → Prop
  | .done (.ok a) => P a
  | .done (.error _) => True
  | .call c k => ∀ x, log c x = none ∧ (k x).Quiet log P
  | .stuck => True

theorem Quiet.yields {P : α → Prop} {p : Prog S (Except ε α)} (hp : p.Quiet log P) {ds : List δ} {a : α}
    (h : p.Yields log ds a) : ds = [] ∧ P a := by
  induction h with
  | done a => exact ⟨rfl, hp⟩
  | call x h ih =>
    obtain ⟨rfl, ha⟩ := ih (hp x).2
    exact ⟨by simp [(hp x).1], ha⟩

theorem Quiet.andThen {P : α → Prop} {P' : γ → Prop} {p : Prog S (Except ε α)}
    {f : α → Prog S (Except ε γ)} (hp : p.Quiet log P) (hf : ∀ a, P a → (f a).Quiet log P') :
    (p.andThen f).Quiet log P' := by
  induction p with
  | done out =>
    cases out with
    | ok a => exact hf a hp
    | error err => trivial
  | call c k ih => exact fun x => ⟨(hp x).1, ih x (hp x).2⟩
  | stuck => trivial

/-- Their results are related where they have observed the same. -/
def Agree (log : (c : S.Call) → S.Reply c → Option δ) (P : α → β → Prop) (p : Prog S (Except ε α))
    (q : Prog S (Except ε β)) : Prop :=
  ∀ (ds ds' rest rest' : List δ) (a : α) (b : β), p.Yields log ds a → q.Yields log ds' b →
    ds ++ rest = ds' ++ rest' → rest = rest' ∧ P a b

variable {P : α → β → Prop} {p : Prog S (Except ε α)} {q : Prog S (Except ε β)}

theorem agree_done {a : α} {b : β} (h : P a b) :
    Agree log P (.done (.ok a) : Prog S (Except ε α)) (.done (.ok b)) := by
  intro ds ds' rest rest' a' b' hp hq heq
  cases hp
  cases hq
  exact ⟨heq, h⟩

theorem agree_call {c : S.Call} {k : S.Reply c → Prog S (Except ε α)} {k' : S.Reply c → Prog S (Except ε β)}
    (hlog : ∀ x, ∃ d, log c x = some d)
    (hk : ∀ x y, log c x = log c y → Agree log P (k x) (k' y)) :
    Agree log P (.call c k) (.call c k') := by
  intro ds ds' rest rest' a b hp hq heq
  cases hp with
  | call x hp =>
    cases hq with
    | call y hq =>
      obtain ⟨d, hd⟩ := hlog x
      obtain ⟨d', hd'⟩ := hlog y
      simp only [hd, hd', Option.toList_some, List.cons_append, List.nil_append, List.cons.injEq] at heq
      exact hk x y (hd.trans ((congrArg some heq.1).trans hd'.symm)) _ _ _ _ a b hp hq heq.2

theorem agree_quiet {A : α → Prop} {B : β → Prop} (hp : p.Quiet log A) (hq : q.Quiet log B)
    (h : ∀ a b, A a → B b → P a b) : Agree log P p q := by
  intro ds ds' rest rest' a b hpa hqb heq
  obtain ⟨rfl, ha⟩ := hp.yields hpa
  obtain ⟨rfl, hb⟩ := hq.yields hqb
  exact ⟨heq, h a b ha hb⟩

theorem Agree.andThen {Q : γ → γ' → Prop} {f : α → Prog S (Except ε γ)} {g : β → Prog S (Except ε γ')}
    (hp : Agree log P p q) (hf : ∀ a b, P a b → Agree log Q (f a) (g b)) :
    Agree log Q (p.andThen f) (q.andThen g) := by
  intro ds ds' rest rest' c d hpc hqd heq
  obtain ⟨ds₁, ds₂, a, rfl, hpa, hfa⟩ := hpc.of_andThen
  obtain ⟨ds₁', ds₂', b, rfl, hqb, hgb⟩ := hqd.of_andThen
  rw [List.append_assoc, List.append_assoc] at heq
  obtain ⟨hrest, hab⟩ := hp _ _ _ _ a b hpa hqb heq
  exact hf a b hab _ _ _ _ c d hfa hgb hrest

/-- Runs that have observed the same have related results. -/
theorem Agree.run {τ : Type} (hp : Agree log P p q) {h : Handler S σ} {g : Handler S τ} {s s' : σ}
    {t t' : τ} {a : α} {b : β} (hrun : p.run h s = some (.ok a, s')) (hrun' : q.run g t = some (.ok b, t'))
    (heq : observed log (p.trace h s) = observed log (q.trace g t)) : P a b := by
  refine (hp _ _ [] [] a b (yields_of_run hrun) (yields_of_run hrun') ?_).2
  rw [heq]

end Prog

end Interaction
