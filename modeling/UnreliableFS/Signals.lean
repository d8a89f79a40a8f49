import UnreliableFS.Decision
import UnreliableFS.Session

/-!
# The processes that get a signal

The daemon is a process among others, each of which has threads. Each request comes
with a context that names the thread that has made it, or with the id 0 if the kernel
has made it on its own behalf or the thread is of another pid namespace. `kill` takes
the id of a thread for the whole process it is of, and an id that is not positive for a
group of processes.
-/

namespace UnreliableFS

open Interaction Posix

inductive Origin
  | thread (tid pid : Nat) (pos : 0 < tid)
  /-- A thread of another pid namespace. -/
  | foreign
  | kernel

/-- `fuse_get_context()->pid`: the kernel puts the id of the thread there. -/
def Origin.contextPid : Origin → Int
  | .thread tid _ _ => tid
  | .foreign | .kernel => 0

/-- The processes that run: the process of each thread, by the thread's id, and the group
of each process. -/
structure Processes where
  thread : Nat → Option Nat
  group : Nat → Option Nat
  running : ∀ t p, thread t = some p → (group p).isSome

def Processes.without (ps : Processes) (ended : Nat → Bool) : Processes where
  thread := fun t => (ps.thread t).filter fun p => !ended p
  group := fun p => if ended p then none else ps.group p
  running := by
    intro t p h
    obtain ⟨ht, he⟩ := Option.filter_eq_some_iff.mp h
    have he : ended p = false := by simpa using he
    simpa [he] using ps.running t p ht

structure System (β : Type) where
  session : Session β
  processes : Processes
  /-- The pid of the daemon. -/
  self : Nat

/-- A request has no context if `fuse_get_context` returns a null pointer. -/
inductive SystemEvent
  | request (i : Incoming) (context : Option Origin)
  /-- Processes and threads start and end, and processes change their groups. -/
  | processes (ps : Processes)

def World.calledBy (w : World β) (context : Option Origin) : World β :=
  { w with caller := context.map Origin.contextPid }

def DaemonCall.killed? : DaemonCall → Option Int
  | .kill pid _ => some pid
  | _ => none

namespace System

variable {β : Type} (os : OS β) (E : Setup) (fuel : Nat) (s : System β)

def Alive : Prop := (s.processes.group s.self).isSome

instance : Decidable s.Alive := inferInstanceAs (Decidable (_ = true))

/-- Whether a process gets a signal that the daemon sends to `pid`. -/
def receives (pid : Int) (q : Nat) : Bool :=
  match s.processes.group q with
  | none => false
  | some g =>
    if 0 < pid then s.processes.thread pid.toNat = some q
    else if pid = 0 then s.processes.group s.self = some g
    else if pid = -1 then q ≠ 1 ∧ q ≠ s.self
    else (g : Int) = -pid

/-- The pids that `error_inject` passes to `kill`. -/
def signals (i : Incoming) (context : Option Origin) : List Int :=
  (Decision.calls os (errorInject E i.request.path i.request.op)
    (s.session.world.calledBy context)).filterMap DaemonCall.killed?

def survivors (i : Incoming) (context : Option Origin) : Processes :=
  s.processes.without fun q => (s.signals os E i context).any (s.receives · q)

/-- A daemon that has been killed does not serve the request. -/
def step : Machine (System β) SystemEvent Unit
  | s, .request i context =>
    if ¬s.Alive then none
    else if (s.survivors os E i context).group s.self = none then
      some ((), { s with processes := s.survivors os E i context })
    else
      let called : Session β := { s.session with world := s.session.world.calledBy context }
      (called.serve os E fuel i).map fun r =>
        ((), { s with session := r.2, processes := s.survivors os E i context })
  | s, .processes processes => some ((), { s with processes })

/-- Each signal reaches exactly one process, the one that has made the request, and it is
not the daemon. -/
structure OnlyCaller (i : Incoming) (context : Option Origin) : Prop where
  positive : ∀ pid ∈ s.signals os E i context, 0 < pid
  caller : ∀ pid ∈ s.signals os E i context, ∃ tid p pos, context = some (.thread tid p pos) ∧
    ∀ q, s.receives pid q = true ↔ q = p
  daemon : ∀ pid ∈ s.signals os E i context, s.receives pid s.self = false

/-- An entry of type `kill_caller` triggers on a request. -/
def Kills (i : Incoming) : Prop :=
  i.request.path ≠ E.configPath ∧ ∃ errors, s.session.world.errors = some errors ∧
    ∃ v ∈ visits E i.request.path i.request.op errors s.session.world.draws,
      v.Triggered E i.request.path i.request.op ∧ v.entry.type = .killCaller

/-- None triggers, unless the context names a thread that still runs, of the process that
has made the request and is not the daemon; and the daemon does not end otherwise. -/
def Spares : SystemEvent → Prop
  | .request i context => s.Kills E i → ∀ o, context = some o →
    ∃ tid p pos, o = .thread tid p pos ∧ s.processes.thread tid = some p ∧ p ≠ s.self
  | .processes ps => (ps.group s.self).isSome

-- ---------------------------------------------------------------------------
-- The signals of a request
-- ---------------------------------------------------------------------------

variable {os E fuel s} {i : Incoming} {context : Option Origin}

theorem killed_acts {path : CStr} {op : FuseOp} {v : Visit} {caller : Option Int} {pid : Int} :
    pid ∈ (v.acts E path op caller).filterMap DaemonCall.killed? ↔
      v.Triggered E path op ∧ v.entry.type = .killCaller ∧ caller = some pid := by
  unfold Visit.acts
  by_cases hv : v.Triggered E path op
  · rw [if_pos hv]
    cases v.entry.type with
    | killCaller => cases caller <;> simp [DaemonCall.killed?, hv, eq_comm]
    | _ => simp [DaemonCall.killed?]
  · simp [hv]

theorem filterMap_killed (calls : List DaemonCall) :
    (calls.filter DaemonCall.isAct).filterMap DaemonCall.killed? =
      calls.filterMap DaemonCall.killed? := by
  rw [List.filterMap_filter]
  congr 1
  funext c
  cases c <;> rfl

theorem killed_configInit (path : CStr) (w : World β) :
    (Decision.calls os (configInit path) w).filterMap DaemonCall.killed? = [] := by
  unfold configInit
  simp only [Decision.calls, Prog.ask, Prog.call_bind, Prog.done_bind, Prog.trace_call]
  split
  · simp only [Prog.trace_call]
    split
    · rfl
    · rfl
  · rfl

theorem signals_nil (h : i.request.path = E.configPath ∨ s.session.world.errors = none) :
    s.signals os E i context = [] := by
  unfold signals
  by_cases hp : i.request.path = E.configPath
  · let after (errors : Option (List ErrinjConf)) : Decision Int :=
      .call (S := daemonSig) (.setErrors errors) fun _ => .call (S := daemonSig) .unlock fun _ => .done 0
    have hcalls : Decision.calls os (errorInject E E.configPath i.request.op)
        (s.session.world.calledBy context) =
          .lock :: Decision.calls os (configInit E.configPath >>= after)
            (s.session.world.calledBy context) := by
      unfold errorInject
      rw [if_pos rfl]
      rfl
    have hrun : (configInit E.configPath).run (daemon os) (s.session.world.calledBy context) =
      some _ := configInit_run _ _
    rw [hp, hcalls, calls_bind hrun, List.filterMap_cons, List.filterMap_append, killed_configInit]
    rfl
  · obtain h | h := h
    · exact absurd h hp
    · have he : (s.session.world.calledBy context).errors = none := h
      unfold errorInject
      simp only [hp, ↓reduceIte, Decision.calls, Prog.ask, Prog.call_bind, Prog.done_bind,
        Prog.trace_call, daemon, he]
      rfl

theorem mem_signals_iff {pid : Int} : pid ∈ s.signals os E i context ↔
    s.Kills E i ∧ ∃ o, context = some o ∧ pid = o.contextPid := by
  by_cases hp : i.request.path = E.configPath
  · rw [signals_nil (.inl hp)]
    simp [Kills, hp]
  · cases he : s.session.world.errors with
    | none =>
      rw [signals_nil (.inr he)]
      simp [Kills, he]
    | some errors =>
      have hw : (s.session.world.calledBy context).errors = some errors := he
      unfold signals Kills
      rw [← filterMap_killed, errorInject_acts os i.request.op hp hw, List.filterMap_flatMap,
        List.mem_flatMap]
      simp only [killed_acts, World.calledBy, Option.map_eq_some_iff]
      constructor
      · rintro ⟨v, hm, hv, ht, o, ho, rfl⟩
        exact ⟨⟨hp, errors, he, v, hm, hv, ht⟩, o, ho, rfl⟩
      · rintro ⟨⟨-, errors', he', v, hm, hv, ht⟩, o, ho, rfl⟩
        obtain rfl := Option.some.inj (he.symm.trans he')
        exact ⟨v, hm, hv, ht, o, ho, rfl⟩

-- ---------------------------------------------------------------------------
-- Who gets them
-- ---------------------------------------------------------------------------

theorem receives_tid {tid q : Nat} (hp : 0 < tid) :
    s.receives tid q = true ↔ s.processes.thread tid = some q := by
  have hpos : 0 < (tid : Int) := Int.natCast_pos.mpr hp
  unfold receives
  cases hg : s.processes.group q with
  | none =>
    have hn : s.processes.thread tid ≠ some q := by
      intro ht
      have := s.processes.running tid q ht
      simp [hg] at this
    simp [hn]
  | some g => simp only [hpos, ↓reduceIte, decide_eq_true_eq, Int.toNat_natCast]

theorem onlyCaller_of_spares (h : s.Spares E (.request i context)) :
    s.OnlyCaller os E i context := by
  have hsignal {pid : Int} (hm : pid ∈ s.signals os E i context) : ∃ tid p pos,
      context = some (.thread tid p pos) ∧ pid = tid ∧ s.processes.thread tid = some p ∧ p ≠ s.self := by
    obtain ⟨hk, o, ho, rfl⟩ := mem_signals_iff.mp hm
    obtain ⟨tid, p, pos, rfl, ht, hne⟩ := h hk o ho
    exact ⟨tid, p, pos, ho, rfl, ht, hne⟩
  constructor
  case positive =>
    intro pid hm
    obtain ⟨tid, p, pos, -, rfl, -⟩ := hsignal hm
    omega
  case caller =>
    intro pid hm
    obtain ⟨tid, p, pos, ho, rfl, ht, -⟩ := hsignal hm
    refine ⟨tid, p, pos, ho, fun q => (receives_tid pos).trans ?_⟩
    rw [ht, Option.some.injEq, eq_comm]
  case daemon =>
    intro pid hm
    obtain ⟨tid, p, pos, -, rfl, ht, hne⟩ := hsignal hm
    rw [Bool.eq_false_iff]
    exact fun hr => hne (Option.some.inj (ht.symm.trans ((receives_tid pos).mp hr)))

theorem spares_of_onlyCaller (h : s.OnlyCaller os E i context) :
    s.Spares E (.request i context) := by
  intro hk o ho
  have hm : o.contextPid ∈ s.signals os E i context := mem_signals_iff.mpr ⟨hk, o, ho, rfl⟩
  obtain ⟨tid, p, pos, hp, hq⟩ := h.caller _ hm
  obtain rfl := Option.some.inj (ho.symm.trans hp)
  refine ⟨tid, p, pos, rfl, (receives_tid pos).mp ((hq p).mpr rfl), ?_⟩
  rintro rfl
  have hd := h.daemon _ hm
  rw [(hq s.self).mpr rfl] at hd
  cases hd

theorem survivors_of_onlyCaller (h : s.OnlyCaller os E i context) :
    (s.survivors os E i context).group s.self = s.processes.group s.self := by
  have hnone : (s.signals os E i context).any (s.receives · s.self) = false := by
    rw [List.any_eq_false]
    intro pid hm
    simp [h.daemon pid hm]
  simp only [survivors, Processes.without, hnone, Bool.false_eq_true, ↓reduceIte]

theorem Alive.step {e : SystemEvent} {o : Unit} {s' : System β} (ha : s.Alive) (hg : s.Spares E e)
    (hs : step os E fuel s e = some (o, s')) : s'.Alive := by
  cases e with
  | processes ps =>
    cases hs
    exact hg
  | request i context =>
    have hcaller : s.OnlyCaller os E i context := onlyCaller_of_spares hg
    have hself := survivors_of_onlyCaller hcaller
    have hsome : (s.survivors os E i context).group s.self ≠ none := by
      rw [hself]
      exact Option.isSome_iff_ne_none.mp ha
    simp only [System.step, ha, not_true_eq_false, hsome, ↓reduceIte] at hs
    obtain ⟨r, -, he⟩ := Option.map_eq_some_iff.mp hs
    cases he
    change ((s.survivors os E i context).group s.self).isSome
    rw [hself]
    exact ha

/-- The daemon lives through every run of requests on which no `kill_caller`
triggers but for a running thread of the process that asked, other than the daemon;
and in every state these are just the requests whose signals reach only their caller. -/
theorem kill_caller_reaches_iff (os : OS β) (E : Setup) (fuel : Nat) (s₀ : System β) (h₀ : s₀.Alive) :
    (∀ s, Reachable (System.step os E fuel) (Spares E) s₀ s → s.Alive) ∧
      ∀ s, Reachable (System.step os E fuel) (fun _ _ => True) s₀ s →
        ∀ i context, s.OnlyCaller os E i context ↔ s.Spares E (.request i context) :=
  ⟨fun _ h => h.invariant (I := Alive) (fun _ _ _ _ ha hg hs => ha.step hg hs) h₀,
    fun _ _ _ _ => ⟨spares_of_onlyCaller, onlyCaller_of_spares⟩⟩

/-- The daemon, process 7 with a worker thread 9, and process 8 with a thread 10 are of a
group. -/
def ofDaemon : System Base where
  session := ⟨bootWorld .root (some [{ type := .killCaller, probability := 100 }]), fun _ => none⟩
  processes := {
    thread := fun t => if t = 7 ∨ t = 9 then some 7 else if t = 8 ∨ t = 10 then some 8 else none
    group := fun q => if q = 7 ∨ q = 8 then some 7 else none
    running := by
      intro t p h
      split at h
      · cases h
        rfl
      · split at h
        · cases h
          rfl
        · cases h }
  self := 7

def releaseF : Incoming := ⟨.release (ascii "/f"), 0, .zero⟩

theorem kill_caller_reaches_other :
    ofDaemon.OnlyCaller (posix .small) (smallSetup (ascii "/c")) releaseF
      (some (.thread 10 8 (by decide))) :=
  ((kill_caller_reaches_iff (posix .small) (smallSetup (ascii "/c")) 0 ofDaemon (by decide)).2 _ .refl
    _ _).mpr fun _ _ ho =>
      ⟨10, 8, by decide, (Option.some.inj ho).symm, by decide, by decide⟩

/-- A request that the kernel makes for itself takes the daemon with it. -/
theorem kill_caller_reaches_daemon : ∃ s,
    Reachable (System.step (posix .small) (smallSetup (ascii "/c")) 0) (fun _ _ => True) ofDaemon s ∧
      ofDaemon.signals (posix .small) (smallSetup (ascii "/c")) releaseF (some .kernel) = [0] ∧
      ofDaemon.Alive ∧ ¬s.Alive := by
  have hs : System.step (posix .small) (smallSetup (ascii "/c")) 0 ofDaemon
      (.request releaseF (some .kernel)) = some ((), { ofDaemon with
        processes := ofDaemon.survivors (posix .small) (smallSetup (ascii "/c")) releaseF
          (some .kernel) }) := by
    rfl
  exact ⟨_, .step .refl trivial hs, by rfl, by decide, by decide⟩

end System

end UnreliableFS
