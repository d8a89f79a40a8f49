import UnreliableFS.Interaction.Prog

/-!
# Programs that judge their environment

A `Reference` is an environment as it should be: the calls it may be asked in a
state, the replies it should give, and the state after them. A program that ends in
`ok` or in an error judges its environment by it if, whatever the environment does,
it ends in `ok` exactly when all replies have been as expected. Up to the first reply
that is not, it asks only what it may; after it, it ends in an error, or gets stuck
exactly where the reference says it is lost (`Judges.run`).
-/

namespace Interaction

variable {S : Sig} {σ ρ : Type} {ε α γ : Type}

abbrev Answer (S : Sig) := (c : S.Call) × S.Reply c

def Event.answer (e : Event S σ) : Answer S := ⟨e.call, e.reply⟩

structure Reference (S : Sig) (ρ : Type) where
  allowed : ρ → S.Call → Prop
  expects : ρ → (c : S.Call) → S.Reply c → Prop
  /-- What a reply that is not as expected comes to, with what is answered after it: an
  error, or that the program gets stuck. -/
  loses : ρ → (c : S.Call) → S.Reply c → List (Answer S) → Prop
  next : ρ → (c : S.Call) → S.Reply c → ρ

namespace Reference

variable (R : Reference S ρ)

def Conforms : ρ → List (Event S σ) → Prop
  | _, [] => True
  | r, e :: es => R.expects r e.call e.reply ∧ Conforms (R.next r e.call e.reply) es

def after : ρ → List (Event S σ) → ρ
  | r, [] => r
  | r, e :: es => after (R.next r e.call e.reply) es

/-- Every call of a trace may be asked, as long as the replies before it are as expected. -/
def Proper : ρ → List (Event S σ) → Prop
  | _, [] => True
  | r, e :: es => R.allowed r e.call ∧
      (R.expects r e.call e.reply → Proper (R.next r e.call e.reply) es)

/-- With the first reply of a trace that is not as expected the program is lost. -/
def Loses : ρ → List (Event S σ) → Prop
  | _, [] => False
  | r, e :: es => R.expects r e.call e.reply ∧ Loses (R.next r e.call e.reply) es ∨
      ¬R.expects r e.call e.reply ∧ R.loses r e.call e.reply (es.map Event.answer)

/-- An environment that keeps what ties it to the reference, and replies as expected, as
long as it is asked what it may be. -/
def Honest (h : Handler S σ) (Rel : σ → ρ → Prop) : Prop := ∀ c s r, Rel s r → R.allowed r c →
  R.expects r c (h c s).1 ∧ Rel (h c s).2 (R.next r c (h c s).1)

variable {R} in
theorem Honest.conforms {h : Handler S σ} {Rel : σ → ρ → Prop} (hh : R.Honest h Rel) (p : Prog S α)
    {s : σ} {r : ρ} (hrel : Rel s r) (hp : R.Proper r (p.trace h s)) :
    R.Conforms r (p.trace h s) ∧
      ∀ a s', p.run h s = some (a, s') → Rel s' (R.after r (p.trace h s)) := by
  induction p generalizing s r with
  | done a =>
    refine ⟨trivial, ?_⟩
    rintro _ _ ⟨⟩
    exact hrel
  | call c k ih =>
    obtain ⟨he, hnext⟩ := hh c s r hrel hp.1
    obtain ⟨hconforms, hafter⟩ := ih _ hnext (hp.2 he)
    exact ⟨⟨he, hconforms⟩, hafter⟩
  | stuck => exact ⟨trivial, fun _ _ h => nomatch h⟩

end Reference

namespace Prog

/-- Whatever the replies, it gets stuck exactly where they are ones that `D` holds of;
or it ends with a result that `P` holds of and of what is left to say of `D`. -/
def Leads (D : List (Answer S) → Prop) (P : α → (List (Answer S) → Prop) → Prop) :
    Prog S (Except ε α) → Prop
  | .done (.ok a) => P a D
  | .done (.error _) => ¬D []
  | .call c k => ∀ x, (k x).Leads (fun rest => D (⟨c, x⟩ :: rest)) P
  | .stuck => D []

abbrev Fails (D : List (Answer S) → Prop) (p : Prog S (Except ε α)) : Prop :=
  p.Leads D fun _ _ => False

/-- It judges the replies by the reference, and `Q` holds where it ends in `ok`. -/
def Judges (R : Reference S ρ) (Q : α → ρ → Prop) : Prog S (Except ε α) → ρ → Prop
  | .done (.ok a), r => Q a r
  | .done (.error _), _ => False
  | .call c k, r => R.allowed r c ∧ ∀ x,
      (R.expects r c x → (k x).Judges R Q (R.next r c x)) ∧
        (¬R.expects r c x → (k x).Fails (R.loses r c x))
  | .stuck, _ => False

variable {D : List (Answer S) → Prop}

theorem Fails.run {p : Prog S (Except ε α)} (hp : p.Fails D) (h : Handler S σ) (s : σ) :
    (∃ err s', p.run h s = some (.error err, s')) ∧ ¬D ((p.trace h s).map Event.answer) ∨
      p.run h s = none ∧ D ((p.trace h s).map Event.answer) := by
  induction p generalizing s D with
  | done out =>
    cases out with
    | ok a => exact hp.elim
    | error err => exact .inl ⟨⟨err, s, rfl⟩, hp⟩
  | call c k ih => exact ih _ (hp _) _
  | stuck => exact .inr ⟨rfl, hp⟩

theorem Leads.mono {P P' : α → (List (Answer S) → Prop) → Prop} {p : Prog S (Except ε α)}
    (hp : p.Leads D P) (hP : ∀ a D', P a D' → P' a D') : p.Leads D P' := by
  induction p generalizing D with
  | done out =>
    cases out with
    | ok a => exact hP a D hp
    | error err => exact hp
  | call c k ih => exact fun x => ih x (hp x)
  | stuck => exact hp

variable {R : Reference S ρ} {Q : α → ρ → Prop} {r : ρ}

/-- Run in any environment, it ends in `ok` exactly if the environment has been as
it should be. -/
theorem Judges.run {p : Prog S (Except ε α)} (hp : p.Judges R Q r) (h : Handler S σ) (s : σ) :
    R.Proper r (p.trace h s) ∧
      ((∃ a s', p.run h s = some (.ok a, s')) ↔ R.Conforms r (p.trace h s)) ∧
      (∀ a s', p.run h s = some (.ok a, s') → Q a (R.after r (p.trace h s))) ∧
      (p.run h s = none ↔ R.Loses r (p.trace h s)) := by
  induction p generalizing s r with
  | done out =>
    cases out with
    | ok a =>
      exact ⟨trivial, by simp [Reference.Conforms], by rintro _ _ ⟨⟩; exact hp,
        by simp [Reference.Loses]⟩
    | error err => exact hp.elim
  | call c k ih =>
    obtain ⟨hallowed, hx⟩ := hp
    obtain ⟨hgood, hbad⟩ := hx (h c s).1
    by_cases he : R.expects r c (h c s).1
    · obtain ⟨hproper, hok, hq, hstuck⟩ := ih _ (hgood he) (h c s).2
      refine ⟨⟨hallowed, fun _ => hproper⟩, hok.trans (and_iff_right he).symm, hq, hstuck.trans ?_⟩
      exact ⟨fun hl => .inl ⟨he, hl⟩, fun hl => (hl.resolve_right fun hn => hn.1 he).2⟩
    · have hproper : R.Proper r ((Prog.call c k).trace h s) := ⟨hallowed, fun h => absurd h he⟩
      have hn : ¬R.Conforms r ((Prog.call c k).trace h s) := fun hc => he hc.1
      obtain ⟨⟨err, s', hrun⟩, hl⟩ | ⟨hrun, hl⟩ := (hbad he).run h (h c s).2
      · refine ⟨hproper, iff_of_false (by simp [hrun]) hn, by simp [hrun],
          iff_of_false (by simp [hrun]) ?_⟩
        exact fun hl' => hl'.elim (fun hg => he hg.1) fun hg => hl hg.2
      · exact ⟨hproper, iff_of_false (by simp [hrun]) hn, by simp [hrun],
          iff_of_true hrun (.inr ⟨he, hl⟩)⟩
  | stuck => exact hp.elim

/-- Of an environment as it should be it does not complain. -/
theorem Judges.accepts {p : Prog S (Except ε α)} (hp : p.Judges R Q r) {h : Handler S σ}
    {Rel : σ → ρ → Prop} (hh : R.Honest h Rel) {s : σ} (hrel : Rel s r) :
    ∃ a s' r', p.run h s = some (.ok a, s') ∧ Q a r' ∧ Rel s' r' := by
  obtain ⟨hproper, hok, hq, -⟩ := hp.run h s
  obtain ⟨hconforms, hafter⟩ := hh.conforms p hrel hproper
  obtain ⟨a, s', hrun⟩ := hok.mpr hconforms
  exact ⟨a, s', _, hrun, hq a s' hrun, hafter _ s' hrun⟩

theorem Judges.mono {Q' : α → ρ → Prop} {p : Prog S (Except ε α)} (hp : p.Judges R Q r)
    (hQ : ∀ a r', Q a r' → Q' a r') : p.Judges R Q' r := by
  induction p generalizing r with
  | done out =>
    cases out with
    | ok a => exact hQ a r hp
    | error err => exact hp
  | call c k ih => exact ⟨hp.1, fun x => ⟨fun he => ih x ((hp.2 x).1 he), (hp.2 x).2⟩⟩
  | stuck => exact hp

def Breaks (R : Reference S ρ) (r : ρ) (h : Handler S σ) (s : σ) (p : Prog S α) : Prop :=
  p.run h s = none ∧ R.Conforms r (p.trace h s)

theorem breaks_stuck (r : ρ) (h : Handler S σ) (s : σ) : (Prog.stuck : Prog S α).Breaks R r h s :=
  ⟨rfl, trivial⟩

theorem Breaks.call {h : Handler S σ} {s : σ} {c : S.Call} {k : S.Reply c → Prog S α}
    (he : R.expects r c (h c s).1)
    (hk : (k (h c s).1).Breaks R (R.next r c (h c s).1) h (h c s).2) : (Prog.call c k).Breaks R r h s :=
  ⟨hk.1, he, hk.2⟩

theorem Breaks.bind {h : Handler S σ} {s : σ} {p : Prog S α} (hp : p.Breaks R r h s)
    (f : α → Prog S γ) : (p >>= f).Breaks R r h s := by
  induction p generalizing r s with
  | done a => exact absurd hp.1 (by simp)
  | call c k ih => exact .call hp.2.1 (ih _ ⟨hp.1, hp.2.2⟩)
  | stuck => exact breaks_stuck r h s

-- ---------------------------------------------------------------------------
-- Programs that stop at an error
-- ---------------------------------------------------------------------------

def andThen (p : Prog S (Except ε α)) (f : α → Prog S (Except ε γ)) : Prog S (Except ε γ) :=
  p >>= fun | .ok a => f a | .error err => .done (.error err)

@[simp] theorem andThen_ok (a : α) (f : α → Prog S (Except ε γ)) :
    (Prog.done (.ok a) : Prog S (Except ε α)).andThen f = f a := rfl
@[simp] theorem andThen_error (err : ε) (f : α → Prog S (Except ε γ)) :
    (Prog.done (.error err) : Prog S (Except ε α)).andThen f = .done (.error err) := rfl
@[simp] theorem andThen_call (c : S.Call) (k : S.Reply c → Prog S (Except ε α))
    (f : α → Prog S (Except ε γ)) :
    (Prog.call c k).andThen f = .call c fun x => (k x).andThen f := rfl

theorem Leads.andThen {P : γ → (List (Answer S) → Prop) → Prop} {p : Prog S (Except ε α)}
    {f : α → Prog S (Except ε γ)} (hp : p.Leads D fun a D' => (f a).Leads D' P) :
    (p.andThen f).Leads D P := by
  induction p generalizing D with
  | done out =>
    cases out with
    | ok a => exact hp
    | error err => exact hp
  | call c k ih => exact fun x => ih x (hp x)
  | stuck => exact hp

theorem Judges.andThen {p : Prog S (Except ε α)} {f : α → Prog S (Except ε γ)} {Q' : γ → ρ → Prop}
    (hp : p.Judges R (fun a r' => (f a).Judges R Q' r') r) : (p.andThen f).Judges R Q' r := by
  induction p generalizing r with
  | done out =>
    cases out with
    | ok a => exact hp
    | error err => exact hp.elim
  | call c k ih =>
    refine ⟨hp.1, fun x => ⟨fun he => ih x ((hp.2 x).1 he), fun he => ?_⟩⟩
    exact (((hp.2 x).2 he).mono fun _ _ => False.elim).andThen
  | stuck => exact hp.elim

end Prog

end Interaction
