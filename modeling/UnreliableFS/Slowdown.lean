import UnreliableFS.Interaction.Threads
import UnreliableFS.Selection

/-!
# Slowdowns under concurrent requests

`libfuse` serves requests in several threads, and `error_inject` holds
`conf.mutex` for the whole decision, the sleep of a slowdown included. A thread
is asleep while its next call is the `nanosleep`, which takes a step to return.
-/

namespace UnreliableFS

open Interaction Posix

-- ---------------------------------------------------------------------------
-- The lock of the decision
-- ---------------------------------------------------------------------------

/-- `nanosleep` refuses a longer time than a second with `EINVAL`. -/
def daemonDiscipline : Discipline daemonSig where
  use
    | .lock => .lock
    | .unlock => .unlock
    | _ => .none
  announces
    | .triggered .slowdown _ _ => true
    | _ => false
  watched
    | .nanosleep _ nsec => nsec ≤ 999999999
    | _ => False

variable (E : Setup)

theorem configInit_obeys (path : CStr) :
    (configInit path).Obeys daemonDiscipline true true false := by
  unfold configInit
  simp only [Prog.ask, Prog.call_bind, Prog.done_bind]
  refine .call trivial (fun h => h.elim) fun (found : Int) => ?_
  split
  · refine .call trivial (fun h => h.elim) fun file => ?_
    split
    · exact .done _
    · exact .done _
  · exact .done _

theorem randRange_obeys (minN maxN : Int) :
    (randRange minN maxN).Obeys daemonDiscipline true true false :=
  .call trivial (fun h => h.elim) fun _ => .done _

theorem opRandomErrno_obeys (op : FuseOp) :
    (opRandomErrno E op).Obeys daemonDiscipline true true false := by
  unfold opRandomErrno
  split
  · exact .done _
  · exact (randRange_obeys _ _).bind fun _ => .done _

theorem act_obeys (op : FuseOp) (err : ErrinjConf) (rc : Int) :
    (act E op err rc).Obeys daemonDiscipline true true
      (daemonDiscipline.announces (.triggered err.type op path)) := by
  unfold act
  cases err.type with
  | noop => exact .done _
  | killCaller =>
    refine .call trivial (fun h => h.elim) fun (cxt : Option Int) => ?_
    cases cxt with
    | none => exact .done _
    | some pid => exact .call trivial (fun h => h.elim) fun _ => .done _
  | errno => exact (opRandomErrno_obeys E op).bind fun _ => .done _
  | slowdown => exact .call trivial (fun _ => ⟨rfl, rfl⟩) fun _ => .done _

theorem injectEach_obeys (path : CStr) (op : FuseOp) (errors : List ErrinjConf) (rc : Int) :
    (injectEach E path op errors rc).Obeys daemonDiscipline true true false := by
  induction errors generalizing rc with
  | nil => exact .done _
  | cons err rest ih =>
    refine (randRange_obeys _ _).bind fun p => ?_
    dsimp only
    split
    · exact ih rc
    · split
      · exact ih rc
      · exact .call trivial (fun h => h.elim) fun _ =>
          (act_obeys E op err rc).bind fun rc' => ih rc'

theorem errorInject_obeys (path : CStr) (op : FuseOp) :
    (errorInject E path op).Obeys daemonDiscipline false false false := by
  have hunlock (rc : Int) : Prog.Obeys daemonDiscipline false true false
      (.call (S := daemonSig) .unlock fun _ => .done rc) :=
    .call rfl (fun h => h.elim) fun _ => .done rc
  refine .call rfl (fun h => h.elim) fun _ => ?_
  split
  · exact (configInit_obeys path).bind fun errors =>
      .call trivial (fun h => h.elim) fun _ => hunlock 0
  · refine .call trivial (fun h => h.elim) fun (errors : Option (List ErrinjConf)) => ?_
    cases errors with
    | none => exact hunlock 0
    | some errors => exact (injectEach_obeys E path op errors 0).bind hunlock

def callDiscipline : Discipline fullSig := daemonDiscipline.inl

theorem Operation.call_obeys (o : Operation) (l : Local) :
    (o.call E l).Obeys callDiscipline false false false := by
  refine (errorInject_obeys E o.path o.op).inl.bind fun rc => ?_
  split
  · exact .done _
  · split
    · exact .done _
    · exact .inr _

-- ---------------------------------------------------------------------------
-- The daemon's threads
-- ---------------------------------------------------------------------------

variable {β : Type}

abbrev Daemon (β : Type) := Threads fullSig (World β) (Int × Local)

def threads (os : OS β) (callers : Nat → Option Int) :
    Machine (Daemon β) (ThreadEvent fullSig (Int × Local)) (Option (Int × Local)) :=
  Threads.step callDiscipline fun t c w => os.handler c { w with caller := callers t }

/-- Threads are started on requests. -/
def Requested (e : ThreadEvent fullSig (Int × Local)) : Prop :=
  ∀ t p, e = .start t p → ∃ (r : Request) (fuel : Nat) (l : Local), p = (r.operation fuel).call E l

/-- A slowdown entry triggers, with a duration to sleep for. -/
def Slows (s : Daemon β) (e : ThreadEvent fullSig (Int × Local)) : Prop := s.Announces callDiscipline e

namespace Daemon

variable (s : Daemon β)

def Asleep (t : Nat) : Prop := ∃ p, s.thread t = some p ∧ p.Begins callDiscipline.watched

def Entering (t : Nat) : Prop := ∃ c k, s.thread t = some (.call c k) ∧ callDiscipline.use c = .lock

/-- No thread sleeps with the lock, so none waits for one that does. -/
structure Undelayed : Prop where
  asleep : ∀ t, s.Asleep t → s.holder ≠ some t
  entering : ∀ t t', s.Entering t' → s.holder = some t → ¬s.Asleep t

end Daemon

variable {E} {os : OS β} {callers : Nat → Option Int} {w : World β} {s s' : Daemon β}
  {e : ThreadEvent fullSig (Int × Local)} {o : Option (Int × Local)}

theorem Requested.starts (h : Requested E e) : Threads.Starts callDiscipline e := by
  intro t p he
  obtain ⟨r, fuel, l, rfl⟩ := h t p he
  exact (r.operation fuel).call_obeys E l

theorem Daemon.Entering.blocked {t t' : Nat} (hn : s.Entering t') (hh : s.holder = some t) :
    threads os callers s (.run t') = none := by
  obtain ⟨c, k, ht, hu⟩ := hn
  exact Threads.step_waiting ht hu hh

theorem announces_iff (c : fullSig.Call) : callDiscipline.announces c = true ↔
    ∃ op path, c = .inl (.triggered .slowdown op path) := by
  constructor
  · intro h
    rcases c with c | c
    · cases c with
      | triggered type op path =>
        cases type with
        | slowdown => exact ⟨op, path, rfl⟩
        | _ => cases h
      | _ => cases h
    · cases h
  · rintro ⟨op, path, rfl⟩
    rfl

theorem Slows.asleep (h : Slows s e) (hi : s.Disciplined callDiscipline) (hg : Requested E e)
    (hs : threads os callers s e = some (o, s')) : ∃ t, s'.Asleep t ∧ s'.holder = some t := by
  have hi' : s'.Disciplined callDiscipline := hi.step hg.starts hs
  obtain ⟨t, p, rfl, ht, ha⟩ := h
  cases p with
  | call c k =>
    obtain ⟨hc, r, hb⟩ := ha
    obtain ⟨op, path, rfl⟩ := (announces_iff c).mp hc
    have ht' : s'.thread t = some (k r) := by
      simp only [threads, Threads.step, ht] at hs
      cases hs
      exact Function.update_self t _ s.thread
    exact ⟨t, ⟨_, ht', hb⟩, hi'.holder ht' hb⟩
  | done a => exact ha.elim
  | stuck => exact ha.elim

/-- No operation is held up by another one's slowdown as long as none triggers. The
thread of one that does sleeps with the lock that every operation asks for first. -/
theorem slowdown_delays_others (os : OS β) (E : Setup) (callers : Nat → Option Int) (w : World β)
    (s : Daemon β) :
    (Reachable (threads os callers) (fun s e => Requested E e ∧ ¬Slows s e) { shared := w } s →
        s.Undelayed) ∧
      (Reachable (threads os callers) (fun _ e => Requested E e) { shared := w } s →
        ∀ e o s', Requested E e → Slows s e → threads os callers s e = some (o, s') →
          ¬s'.Undelayed ∧ ∀ t, s'.Entering t → threads os callers s' (.run t) = none) := by
  constructor
  · intro hr
    have hq := Threads.quiet_of_reachable (fun _ _ hg => ⟨hg.1.starts, hg.2⟩) hr
    have hn : ∀ t, ¬s.Asleep t := fun t ⟨p, ht, hb⟩ => hq t p ht hb
    exact ⟨fun t ha => absurd ha (hn t), fun t _ _ _ => hn t⟩
  · intro hr e o s' hg hsl hs
    have hi := Threads.disciplined_of_reachable (fun _ _ hg => hg.starts) hr
    obtain ⟨t, ha, hh⟩ := hsl.asleep hi hg hs
    exact ⟨fun hu => hu.asleep t ha hh, fun t' hn => hn.blocked hh⟩

def entrySlow : ErrinjConf :=
  { type := .slowdown, pathRegexp := some (ascii "/slow"), probability := 100, duration := 500 }

/-- A request for `/fast` waits for the lock while another one is decided on, which
the slowdown of `/slow` leaves alone. -/
theorem slowdown_delays_others_fast : ∃ s : Daemon Base,
    s.shared.errors = some [entrySlow] ∧ s.holder = some 0 ∧ s.Entering 1 ∧ s.Undelayed := by
  have hrun {s : Daemon Base} {t : Nat} {c : fullSig.Call} {k} (ht : s.thread t = some (.call c k))
      (hc : callDiscipline.announces c = false) :
      Requested literalSetup (.run t) ∧ ¬Slows s (.run t) := by
    refine ⟨fun _ _ he => (nomatch he), ?_⟩
    rintro ⟨_, p, ⟨⟩, hp, ha⟩
    cases ht.symm.trans hp
    exact absurd (hc.symm.trans ha.1) Bool.false_ne_true
  have hstart (s : Daemon Base) (t : Nat) : Requested literalSetup
      (.start t ((unreliableGetattr (ascii "/fast")).call literalSetup .zero)) ∧
      ¬Slows s (.start t ((unreliableGetattr (ascii "/fast")).call literalSetup .zero)) := by
    refine ⟨?_, fun ⟨_, _, he, _⟩ => by cases he⟩
    rintro _ _ ⟨⟩
    exact ⟨.getattr (ascii "/fast"), 0, .zero, rfl⟩
  have h : Reachable (threads (posix .small) fun _ => none)
    (fun s e => Requested literalSetup e ∧ ¬Slows s e)
    { shared := bootWorld .root (some [entrySlow]) }
    { shared := bootWorld .root (some [entrySlow]) } := .refl
  have h := h.step (hstart _ 0) rfl
  have h := h.step (hstart _ 1) rfl
  have h := h.step (hrun (t := 0) rfl rfl) rfl
  have h := h.step (hrun (t := 0) rfl rfl) rfl
  have h := h.step (hrun (t := 0) rfl rfl) rfl
  exact ⟨_, rfl, rfl, ⟨_, _, rfl, rfl⟩,
    (slowdown_delays_others (posix .small) literalSetup _ _ _).1 h⟩

/-- A request for `/slow` sleeps, and one for `/fast` waits for it. -/
theorem slowdown_delays_fast : ∃ s,
    Reachable (threads (posix .small) fun _ => none) (fun _ e => Requested literalSetup e)
        { shared := bootWorld .root (some [entrySlow]) } s ∧
      s.thread 1 = some ((unreliableGetattr (ascii "/fast")).call literalSetup .zero) ∧
      (∀ r, ¬Triggers literalSetup (ascii "/fast") .getattr entrySlow r) ∧
      s.Entering 1 ∧ s.holder = some 0 ∧ s.Asleep 0 ∧ ¬s.Undelayed := by
  have h : Reachable (threads (posix .small) fun _ => none) (fun _ e => Requested literalSetup e)
    { shared := bootWorld .root (some [entrySlow]) }
    { shared := bootWorld .root (some [entrySlow]) } := .refl
  have hrun (t : Nat) : Requested literalSetup (.run t) := fun _ _ he => by cases he
  have hstart (t : Nat) (path : CStr) : Requested literalSetup
      (.start t ((unreliableGetattr path).call literalSetup .zero)) := by
    rintro _ _ ⟨⟩
    exact ⟨.getattr path, 0, .zero, rfl⟩
  have h := h.step (hstart 0 (ascii "/slow")) rfl
  have h := h.step (hstart 1 (ascii "/fast")) rfl
  have h := h.step (hrun 0) rfl
  have h := h.step (hrun 0) rfl
  have h := h.step (hrun 0) rfl
  have h := h.step (hrun 0) rfl
  have ha : 500 ≤ 999999999 := by decide
  refine ⟨_, h, rfl, fun r hr => ?_, ⟨_, _, rfl, rfl⟩, rfl, ⟨_, rfl, ha⟩, fun hu => ?_⟩
  · exact absurd hr.2 (by decide)
  · exact hu.asleep 0 ⟨_, rfl, ha⟩ rfl

end UnreliableFS
