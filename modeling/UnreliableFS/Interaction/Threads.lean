import UnreliableFS.Interaction.Prog
import UnreliableFS.Interaction.Reach
import Mathlib.Logic.Function.Basic

/-!
# Threads that share a mutex

Threads run their programs call by call, in any order. A thread that asks for the
mutex while another has it waits. A `Discipline` names the calls that are made
only by the thread with the mutex, and only when the call before has announced
them; a program keeps to it by its text alone (`Obeys`), so every run of such
programs does.
-/

namespace Interaction

inductive MutexUse
  | lock | unlock | none
  deriving DecidableEq

namespace MutexUse

def Fits : MutexUse → Bool → Prop
  | .lock, held => held = false
  | .unlock, held => held = true
  | .none, _ => True

def after : MutexUse → Bool → Bool
  | .lock, _ => true
  | .unlock, _ => false
  | .none, held => held

def holderAfter (t : Nat) : MutexUse → Option Nat → Option Nat
  | .lock, _ => some t
  | .unlock, _ => Option.none
  | .none, holder => holder

end MutexUse

structure Discipline (S : Sig) where
  use : S.Call → MutexUse
  announces : S.Call → Bool
  watched : S.Call → Prop

/-- The discipline of the first of two environments, when the second has none. -/
def Discipline.inl {S T : Sig} (D : Discipline S) : Discipline (S.sum T) where
  use := Sum.elim D.use fun _ => .none
  announces := Sum.elim D.announces fun _ => false
  watched := Sum.elim D.watched fun _ => False

namespace Prog

variable {S T : Sig} {α γ : Type}

def Begins (C : S.Call → Prop) : Prog S α → Prop
  | .call c _ => C c
  | _ => False

def Announces (D : Discipline S) : Prog S α → Prop
  | .call c k => D.announces c = true ∧ ∃ r, (k r).Begins D.watched
  | _ => False

/-- A program that ends with the mutex or without (`held'`), when it starts with or
without (`held`) and a watched call has been announced or not (`told`). -/
inductive Obeys (D : Discipline S) (held' : Bool) : Bool → Bool → Prog S α → Prop
  | done {told : Bool} (a : α) : Obeys D held' held' told (.done a)
  | call {held told : Bool} {c : S.Call} {k : S.Reply c → Prog S α} : (D.use c).Fits held →
      (D.watched c → held = true ∧ told = true) →
      (∀ r, Obeys D held' ((D.use c).after held) (D.announces c) (k r)) →
      Obeys D held' held told (.call c k)
  | stuck {held told : Bool} : Obeys D held' held told .stuck

namespace Obeys

variable {D : Discipline S} {held held' held'' told : Bool} {p : Prog S α} {f : α → Prog S γ}

theorem of_call {c : S.Call} {k : S.Reply c → Prog S α} (h : Obeys D held' held told (.call c k)) :
    (D.use c).Fits held ∧ ∀ r, Obeys D held' ((D.use c).after held) (D.announces c) (k r) := by
  cases h with
  | call hu _ hk => exact ⟨hu, hk⟩

theorem mono (h : Obeys D held' held false p) : Obeys D held' held told p := by
  cases h with
  | done a => exact .done a
  | call hu hw hk => exact .call hu (fun h => absurd (hw h).2 Bool.false_ne_true) hk
  | stuck => exact .stuck

theorem begins (h : Obeys D held' held told p) (hb : p.Begins D.watched) :
    held = true ∧ told = true := by
  cases h with
  | call _ hw _ => exact hw hb
  | done a => exact hb.elim
  | stuck => exact hb.elim

theorem bind (hp : Obeys D held' held told p) (hf : ∀ a, Obeys D held'' held' false (f a)) :
    Obeys D held'' held told (p >>= f) := by
  induction hp with
  | done a => exact (hf a).mono
  | call hu hw _ ih => exact .call hu hw ih
  | stuck => exact .stuck

theorem ask {c : S.Call} (hu : (D.use c).Fits held) (hw : ¬D.watched c) :
    Obeys D ((D.use c).after held) held told (Prog.ask c) :=
  .call hu (fun h => absurd h hw) fun r => .done r

theorem inl (h : Obeys D held' held told p) :
    Obeys (S := S.sum T) D.inl held' held told p.inl := by
  induction h with
  | done a => exact .done a
  | call hu hw _ ih => exact .call hu hw ih
  | stuck => exact .stuck

theorem inr (p : Prog T α) : Obeys (S := S.sum T) D.inl held held told p.inr := by
  induction p generalizing told with
  | done a => exact .done a
  | call c k ih => exact .call trivial False.elim fun r => ih r
  | stuck => exact .stuck

end Obeys

end Prog

-- ---------------------------------------------------------------------------
-- The machine
-- ---------------------------------------------------------------------------

structure Threads (S : Sig) (σ α : Type) where
  shared : σ
  holder : Option Nat := none
  thread : Nat → Option (Prog S α) := fun _ => none

inductive ThreadEvent (S : Sig) (α : Type)
  | start (t : Nat) (p : Prog S α)
  /-- The next call of a thread returns, or its program ends. -/
  | run (t : Nat)

namespace Threads

variable {S : Sig} {σ α : Type} (D : Discipline S) (h : Nat → Handler S σ)

def step : Machine (Threads S σ α) (ThreadEvent S α) (Option α)
  | s, .start t p =>
    match s.thread t with
    | none => some (none, { s with thread := Function.update s.thread t (some p) })
    | some _ => none
  | s, .run t =>
    match s.thread t with
    | some (.done a) => some (some a, { s with thread := Function.update s.thread t none })
    | some (.call c k) =>
      if D.use c = .lock ∧ s.holder ≠ none then none
      else some (none, {
        shared := (h t c s.shared).2
        holder := (D.use c).holderAfter t s.holder
        thread := Function.update s.thread t (some (k (h t c s.shared).1)) })
    | _ => none

def Starts (e : ThreadEvent S α) : Prop := ∀ t p, e = .start t p → p.Obeys D false false false

def Announces (s : Threads S σ α) (e : ThreadEvent S α) : Prop :=
  ∃ t p, e = .run t ∧ s.thread t = some p ∧ p.Announces D

def Quiet (s : Threads S σ α) : Prop := ∀ t p, s.thread t = some p → ¬p.Begins D.watched

structure Disciplined (s : Threads S σ α) : Prop where
  obeys : ∀ t p, s.thread t = some p → ∃ told, p.Obeys D false (decide (s.holder = some t)) told
  running : ∀ t, s.holder = some t → s.thread t ≠ none

-- ---------------------------------------------------------------------------
-- One step
-- ---------------------------------------------------------------------------

variable {D h} {s s' : Threads S σ α} {e : ThreadEvent S α} {o : Option α}

theorem step_cases (hs : step D h s e = some (o, s')) :
    (∃ t p, e = .start t p ∧ s.thread t = none ∧
      s' = { s with thread := Function.update s.thread t (some p) }) ∨
    (∃ t a, e = .run t ∧ s.thread t = some (.done a) ∧
      s' = { s with thread := Function.update s.thread t none }) ∨
    (∃ t c k, e = .run t ∧ s.thread t = some (.call c k) ∧
      (D.use c = .lock → s.holder = none) ∧
      s' = {
        shared := (h t c s.shared).2
        holder := (D.use c).holderAfter t s.holder
        thread := Function.update s.thread t (some (k (h t c s.shared).1)) }) := by
  cases e with
  | start t p =>
    refine .inl ⟨t, p, rfl, ?_⟩
    simp only [step] at hs
    split at hs
    · rename_i ht
      cases hs
      exact ⟨ht, rfl⟩
    · cases hs
  | run t =>
    simp only [step] at hs
    split at hs
    · rename_i a ht
      cases hs
      exact .inr (.inl ⟨t, a, rfl, ht, rfl⟩)
    · rename_i c k ht
      split at hs
      · cases hs
      · rename_i hn
        cases hs
        refine .inr (.inr ⟨t, c, k, rfl, ht, fun hu => ?_, rfl⟩)
        by_contra hh
        exact hn ⟨hu, hh⟩
    · cases hs

theorem holderAfter_other {u : MutexUse} {holder : Option Nat} {t t' : Nat} (hne : t' ≠ t)
    (hf : u.Fits (decide (holder = some t))) (hl : u = .lock → holder = none) :
    u.holderAfter t holder = some t' ↔ holder = some t' := by
  cases u with
  | lock => simp [MutexUse.holderAfter, hl rfl, hne.symm]
  | unlock =>
    have ht : holder = some t := by simpa [MutexUse.Fits] using hf
    simp [MutexUse.holderAfter, ht, hne.symm]
  | none => rfl

theorem holderAfter_self {u : MutexUse} {holder : Option Nat} (t : Nat) :
    decide (u.holderAfter t holder = some t) = u.after (decide (holder = some t)) := by
  cases u with
  | lock => simp [MutexUse.holderAfter, MutexUse.after]
  | unlock => simp [MutexUse.holderAfter, MutexUse.after]
  | none => rfl

theorem Disciplined.replace (hi : s.Disciplined D) {t : Nat} {next : Option (Prog S α)} {shared : σ}
    {holder : Option Nat} (hother : ∀ t', t' ≠ t → (holder = some t' ↔ s.holder = some t'))
    (hown : ∀ p, next = some p → ∃ told, p.Obeys D false (decide (holder = some t)) told)
    (hrun : holder = some t → next ≠ none) :
    ({ shared, holder, thread := Function.update s.thread t next } : Threads S σ α).Disciplined D := by
  constructor
  case obeys =>
    intro t' p ht
    by_cases hne : t' = t
    · subst hne
      exact hown p (by simpa using ht)
    · simp only [Function.update_of_ne hne] at ht
      simp only [hother t' hne]
      exact hi.obeys t' p ht
  case running =>
    intro t' hh
    by_cases hne : t' = t
    · subst hne
      simpa using hrun hh
    · simp only [Function.update_of_ne hne]
      exact hi.running t' ((hother t' hne).mp hh)

theorem Disciplined.step (hi : s.Disciplined D) (hg : Starts D e)
    (hs : step D h s e = some (o, s')) : s'.Disciplined D := by
  obtain ⟨t, p, he, ht, rfl⟩ | ⟨t, a, he, ht, rfl⟩ | ⟨t, c, k, he, ht, hl, rfl⟩ := step_cases hs
  · -- the thread is new, so it does not hold the mutex
    have hn : s.holder ≠ some t := fun hh => hi.running t hh ht
    refine hi.replace (fun _ _ => Iff.rfl) ?_ fun hh => absurd hh hn
    rintro _ ⟨⟩
    exact ⟨false, by simpa [hn] using hg t p he⟩
  · have hn : s.holder ≠ some t := by
      obtain ⟨told, hp⟩ := hi.obeys t _ ht
      intro hh
      rw [decide_eq_true hh] at hp
      cases hp
    refine hi.replace (fun _ _ => Iff.rfl) ?_ fun hh => absurd hh hn
    rintro _ ⟨⟩
  · obtain ⟨told, hp⟩ := hi.obeys t _ ht
    obtain ⟨hu, hk⟩ := hp.of_call
    refine hi.replace (fun t' hne => holderAfter_other hne hu hl) ?_ fun _ => Option.some_ne_none _
    rintro _ ⟨⟩
    rw [holderAfter_self]
    exact ⟨_, hk _⟩

/-- Without an announcement no thread comes to a watched call. -/
theorem Quiet.step (hq : s.Quiet D) (hi : s.Disciplined D) (hg : Starts D e)
    (hn : ¬s.Announces D e) (hs : step D h s e = some (o, s')) : s'.Quiet D := by
  have hreplace {t : Nat} {next : Option (Prog S α)}
      (hown : ∀ p, next = some p → ¬p.Begins D.watched) :
      ∀ t' p, Function.update s.thread t next t' = some p → ¬p.Begins D.watched := by
    intro t' p ht
    by_cases hne : t' = t
    · subst hne
      exact hown p (by simpa using ht)
    · exact hq t' p (by simpa [hne] using ht)
  obtain ⟨t, p, he, ht, rfl⟩ | ⟨t, a, he, ht, rfl⟩ | ⟨t, c, k, he, ht, hl, rfl⟩ := step_cases hs
  · refine hreplace ?_
    rintro _ ⟨⟩ hb
    exact absurd ((hg t p he).begins hb).1 Bool.false_ne_true
  · refine hreplace ?_
    rintro _ ⟨⟩
  · refine hreplace ?_
    rintro _ ⟨⟩ hb
    obtain ⟨told, hp⟩ := hi.obeys t _ ht
    exact hn ⟨t, _, he, ht, ((hp.of_call.2 _).begins hb).2, _, hb⟩

theorem Disciplined.holder (hi : s.Disciplined D) {t : Nat} {p : Prog S α}
    (ht : s.thread t = some p) (hb : p.Begins D.watched) : s.holder = some t := by
  obtain ⟨told, hp⟩ := hi.obeys t p ht
  exact of_decide_eq_true (hp.begins hb).1

theorem step_waiting {t t' : Nat} {c : S.Call} {k : S.Reply c → Prog S α}
    (ht : s.thread t' = some (.call c k)) (hu : D.use c = .lock) (hh : s.holder = some t) :
    step D h s (.run t') = none := by
  simp [step, ht, hu, hh]

-- ---------------------------------------------------------------------------
-- All runs
-- ---------------------------------------------------------------------------

variable (D) in
theorem disciplined_start (w : σ) : ({ shared := w } : Threads S σ α).Disciplined D :=
  ⟨fun _ _ h => (nomatch h), fun _ h => (nomatch h)⟩

variable {w : σ}

theorem disciplined_of_reachable {G : Threads S σ α → ThreadEvent S α → Prop}
    (hG : ∀ s e, G s e → Starts D e) (hr : Reachable (Threads.step D h) G { shared := w } s) :
    s.Disciplined D :=
  hr.invariant (fun _ _ _ _ hi hg hs => hi.step (hG _ _ hg) hs) (disciplined_start D w)

/-- In a run without announcements no thread is ever at a watched call. -/
theorem quiet_of_reachable {G : Threads S σ α → ThreadEvent S α → Prop}
    (hG : ∀ s e, G s e → Starts D e ∧ ¬s.Announces D e)
    (hr : Reachable (Threads.step D h) G { shared := w } s) : s.Quiet D := by
  have hi : s.Disciplined D ∧ s.Quiet D := by
    refine hr.invariant (I := fun s => s.Disciplined D ∧ s.Quiet D) ?_ ?_
    · rintro s e o s' ⟨hi, hq⟩ hg hs
      obtain ⟨hst, hn⟩ := hG s e hg
      exact ⟨hi.step hst hs, hq.step hi hst hn hs⟩
    · exact ⟨disciplined_start D w, fun _ _ h => nomatch h⟩
  exact hi.2

end Threads

end Interaction
