import UnreliableFS.Interaction.Only
import UnreliableFS.Interaction.Threads

/-!
# Threads that give the mutex back

A program `Releases` the mutex if whatever its calls are answered with it comes to
the unlock, and is never stuck before it. Then no state of the threads is a deadlock:
the thread with the mutex can always go on, and some steps of it alone free the mutex.
-/

namespace Interaction

variable {S T : Sig} {α γ : Type}

/-- A program that ends with the mutex or without (`held'`), when it starts with or
without (`held`). -/
inductive Prog.Releases (D : Discipline S) (held' : Bool) : Bool → Prog S α → Prop
  | done (a : α) : Releases D held' held' (.done a)
  | stuck : Releases D held' false .stuck
  | call {held : Bool} {c : S.Call} {k : S.Reply c → Prog S α} : (D.use c).Fits held →
      (∀ r, Releases D held' ((D.use c).after held) (k r)) → Releases D held' held (.call c k)

namespace Prog.Releases

variable {D : Discipline S} {held held' held'' : Bool} {p : Prog S α} {f : α → Prog S γ}

theorem of_call {c : S.Call} {k : S.Reply c → Prog S α} (h : Releases D held' held (.call c k)) :
    (D.use c).Fits held ∧ ∀ r, Releases D held' ((D.use c).after held) (k r) := by
  cases h with
  | call hu hk => exact ⟨hu, hk⟩

theorem bind (hp : Releases D held' held p) (hf : ∀ a, Releases D held'' held' (f a)) :
    Releases D held'' held (p >>= f) := by
  induction hp with
  | done a => exact hf a
  | stuck => exact .stuck
  | call hu _ ih => exact .call hu ih

theorem of_only (hp : p.Only (D.use · = .none)) : Releases D held held p := by
  induction hp with
  | done a => exact .done a
  | @call c k hc _ ih =>
    refine .call (by simp [hc, MutexUse.Fits]) fun r => ?_
    simpa [hc, MutexUse.after] using ih r

theorem inl (h : Releases D held' held p) : Releases (S := S.sum T) D.inl held' held p.inl := by
  induction h with
  | done a => exact .done a
  | stuck => exact .stuck
  | call hu _ ih => exact .call hu ih

theorem inr (p : Prog T α) : Releases (S := S.sum T) D.inl false false p.inr := by
  induction p with
  | done a => exact .done a
  | call c k ih => exact .call trivial fun r => ih r
  | stuck => exact .stuck

end Prog.Releases

namespace Threads

variable {σ : Type} {D : Discipline S} {h : Nat → Handler S σ} {s s' : Threads S σ α}
  {e : ThreadEvent S α} {o : Option α} {t : Nat}

def StartsReleasing (D : Discipline S) (e : ThreadEvent S α) : Prop :=
  ∀ t p, e = .start t p → p.Releases D false false

structure Releasing (D : Discipline S) (s : Threads S σ α) : Prop where
  releases : ∀ t p, s.thread t = some p → p.Releases D false (decide (s.holder = some t))
  running : ∀ t, s.holder = some t → s.thread t ≠ none

theorem Releasing.replace (hi : s.Releasing D) {next : Option (Prog S α)} {shared : σ}
    {holder : Option Nat} (hother : ∀ t', t' ≠ t → (holder = some t' ↔ s.holder = some t'))
    (hown : ∀ p, next = some p → p.Releases D false (decide (holder = some t)))
    (hrun : holder = some t → next ≠ none) :
    ({ shared, holder, thread := Function.update s.thread t next } : Threads S σ α).Releasing D := by
  constructor
  case releases =>
    intro t' p ht
    by_cases hne : t' = t
    · subst hne
      exact hown p (by simpa using ht)
    · simp only [Function.update_of_ne hne] at ht
      simp only [hother t' hne]
      exact hi.releases t' p ht
  case running =>
    intro t' hh
    by_cases hne : t' = t
    · subst hne
      simpa using hrun hh
    · simpa [hne] using hi.running t' ((hother t' hne).mp hh)

theorem Releasing.step (hi : s.Releasing D) (hg : StartsReleasing D e)
    (hs : step D h s e = some (o, s')) : s'.Releasing D := by
  obtain ⟨t, p, he, ht, rfl⟩ | ⟨t, a, he, ht, rfl⟩ | ⟨t, c, k, he, ht, hl, rfl⟩ := step_cases hs
  · have hn : s.holder ≠ some t := fun hh => hi.running t hh ht
    refine hi.replace (fun _ _ => Iff.rfl) ?_ fun hh => absurd hh hn
    rintro _ ⟨⟩
    simpa [hn] using hg t p he
  · have hn : s.holder ≠ some t := by
      intro hh
      have hp := hi.releases t _ ht
      simp only [hh, decide_true] at hp
      cases hp
    refine hi.replace (fun _ _ => Iff.rfl) ?_ fun hh => absurd hh hn
    rintro _ ⟨⟩
  · obtain ⟨hu, hk⟩ := (hi.releases t _ ht).of_call
    refine hi.replace (fun t' hne => holderAfter_other hne hu hl) ?_ fun _ => Option.some_ne_none _
    rintro _ ⟨⟩
    simpa [holderAfter_self] using hk _

theorem releasing_of_reachable {w : σ} {G : Threads S σ α → ThreadEvent S α → Prop}
    (hG : ∀ s e, G s e → StartsReleasing D e)
    (hr : Reachable (Threads.step D h) G { shared := w } s) : s.Releasing D := by
  have h₀ : ({ shared := w } : Threads S σ α).Releasing D :=
    ⟨fun _ _ ht => (nomatch ht), fun _ hh => (nomatch hh)⟩
  exact hr.invariant (fun _ _ _ _ hi hg hs => hi.step (hG _ _ hg) hs) h₀

-- ---------------------------------------------------------------------------
-- Progress
-- ---------------------------------------------------------------------------

abbrev Alone (D : Discipline S) (h : Nat → Handler S σ) (t : Nat) :
    Threads S σ α → Threads S σ α → Prop :=
  Reachable (Threads.step D h) fun _ e => e = .run t

theorem step_call {c : S.Call} {k : S.Reply c → Prog S α} (ht : s.thread t = some (.call c k))
    (hl : D.use c = .lock → s.holder = none) : Threads.step D h s (.run t) = some (none, {
      shared := (h t c s.shared).2
      holder := (D.use c).holderAfter t s.holder
      thread := Function.update s.thread t (some (k (h t c s.shared).1)) }) := by
  simpa [Threads.step, ht] using hl

/-- By itself the thread with the mutex comes to the unlock. -/
theorem alone_unlocks {p : Prog S α} (hp : p.Releases D false true) (ht : s.thread t = some p)
    (hh : s.holder = some t) : ∃ s', Alone D h t s s' ∧ s'.holder = none ∧
      ∀ t', t' ≠ t → s'.thread t' = s.thread t' := by
  induction p generalizing s with
  | done a => cases hp
  | stuck => cases hp
  | call c k ih =>
    obtain ⟨hu, hk⟩ := hp.of_call
    have hl : D.use c ≠ .lock := fun hl => by simp [hl, MutexUse.Fits] at hu
    have hstep := step_call (h := h) ht fun hl' => absurd hl' hl
    cases huse : D.use c with
    | lock => exact absurd huse hl
    | unlock =>
      refine ⟨_, .step .refl rfl hstep, by simp [huse, MutexUse.holderAfter], fun t' hne => ?_⟩
      simp [hne]
    | none =>
      simp only [huse, MutexUse.after, MutexUse.holderAfter] at hk hstep
      obtain ⟨s', hr, hfree, hother⟩ := ih (h t c s.shared).1 (hk _) (s := {
        shared := (h t c s.shared).2
        holder := s.holder
        thread := Function.update s.thread t (some (k (h t c s.shared).1)) }) (by simp) hh
      refine ⟨s', hr.head rfl hstep, hfree, fun t' hne => ?_⟩
      simpa [hne] using hother t' hne

/-- Unless all threads have ended or are stuck, one of them can take a step. -/
theorem Releasing.can_run (hi : s.Releasing D) {p : Prog S α} (ht : s.thread t = some p)
    (hp : p ≠ .stuck) : ∃ t' o s', Threads.step D h s (.run t') = some (o, s') := by
  by_cases hh : ∃ t', s.holder = some t'
  · -- the thread with the mutex is at a call that does not ask for it
    obtain ⟨t', hh⟩ := hh
    obtain ⟨q, hq⟩ := Option.ne_none_iff_exists'.mp (hi.running t' hh)
    have hrel : q.Releases D false true := by simpa [hh] using hi.releases t' q hq
    cases hrel with
    | @call _ c k hu _ =>
      exact ⟨t', _, _, step_call hq fun hl => by simp [hl, MutexUse.Fits] at hu⟩
  · cases p with
    | done a => exact ⟨t, some a, _, by simp only [Threads.step, ht]; rfl⟩
    | call c k =>
      refine ⟨t, _, _, step_call ht fun _ => ?_⟩
      simpa [Option.eq_none_iff_forall_ne_some] using hh
    | stuck => exact absurd rfl hp

end Threads

end Interaction
