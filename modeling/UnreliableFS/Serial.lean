import UnreliableFS.Decision
import UnreliableFS.Interaction.Only
import UnreliableFS.Interaction.Release
import UnreliableFS.Interaction.Simulation
import UnreliableFS.Reload
import UnreliableFS.Slowdown

/-!
# Concurrent requests, one decision at a time

`error_inject` takes many steps: it locks `conf.mutex`, walks over the list or
reads the configuration file, and unlocks. In the machine `serial` a whole decision
is one step, taken at some moment between the start of the request and its first
system call. Every run of the daemon's threads is a run of `serial` (`Related`), if no
thread changes the configuration file while another is reading it: the system calls
come in the same order with the same answers, and so do the signals and sleeps of the
decisions.
-/

namespace UnreliableFS

open Interaction

-- ---------------------------------------------------------------------------
-- The machine of whole decisions
-- ---------------------------------------------------------------------------

def Operation.after (o : Operation) (l : Local) (rc : Int) : Prog sysSig (Int × Local) :=
  if rc = -ERRNO_NOOP then .done (0, l) else if rc ≠ 0 then .done (rc, l) else o.body l

inductive Phase
  /-- `error_inject` has been called and has not decided. -/
  | asked (o : Operation) (l : Local)
  | decided (p : Prog sysSig (Int × Local))

structure Serial (β : Type) where
  world : World β
  thread : Nat → Option Phase := fun _ => none

inductive SerialEvent
  | start (t : Nat) (o : Operation) (l : Local)
  | decide (t : Nat)
  | run (t : Nat)

variable {β : Type}

def World.askedBy (w : World β) (caller : Option Int) : World β := { w with caller }

def serial (os : OS β) (E : Setup) (callers : Nat → Option Int) :
    Machine (Serial β) SerialEvent (Option (Int × Local))
  | s, .start t o l =>
    match s.thread t with
    | none => some (none, { s with thread := Function.update s.thread t (some (.asked o l)) })
    | some _ => none
  | s, .decide t =>
    match s.thread t with
    | some (.asked o l) =>
      let w := s.world.askedBy (callers t)
      some (none, {
        world := w.decided os E o.path o.op
        thread := Function.update s.thread t
          (some (.decided (o.after l (w.decision os E o.path o.op)))) })
    | _ => none
  | s, .run t =>
    match s.thread t with
    | some (.decided (.done a)) =>
      some (some a, { s with thread := Function.update s.thread t none })
    | some (.decided (.call c k)) =>
      some (none, {
        world := { s.world with base := (os.kernel c s.world.base).2 }
        thread := Function.update s.thread t (some (.decided (k (os.kernel c s.world.base).1))) })
    | _ => none

-- ---------------------------------------------------------------------------
-- What is seen of a run
-- ---------------------------------------------------------------------------

inductive Seen
  | start (t : Nat) (p : Prog fullSig (Int × Local))
  | sys (t : Nat) (c : Sys) (r : SysReply)
  | ended (t : Nat) (a : Int × Local)
  /-- A line on stdout, a signal or a sleep of a decision. -/
  | outward (t : Nat) (c : DaemonCall)

namespace Seen

def thread : Seen → Nat
  | .start t _ | .sys t _ _ | .ended t _ | .outward t _ => t

def isOutward : Seen → Bool
  | .outward .. => true
  | _ => false

/-- A choice of events that does not compare what a decision does outwardly with the
requests and system calls of other threads. -/
def Orderly (keep : Seen → Bool) : Prop :=
  ∀ x y, keep x = true → keep y = true → x.isOutward = true → y.isOutward = false →
    x.thread = y.thread

end Seen

def DaemonCall.isOutward : DaemonCall → Bool
  | .triggered .. | .kill .. | .nanosleep .. => true
  | _ => false

def Decision.outward {α : Type} (os : OS β) (t : Nat) (d : Decision α) (w : World β) : List Seen :=
  ((Decision.calls os d w).filter DaemonCall.isOutward).map (.outward t)

def Daemon.seen (os : OS β) (s : Daemon β) : ThreadEvent fullSig (Int × Local) → List Seen
  | .start t p => [.start t p]
  | .run t =>
    match s.thread t with
    | some (.done a) => [.ended t a]
    | some (.call (.inl c) _) => if c.isOutward then [.outward t c] else []
    | some (.call (.inr c) _) => [.sys t c (os.kernel c s.shared.base).1]
    | _ => []

def Serial.seen (os : OS β) (E : Setup) (callers : Nat → Option Int) (s : Serial β) :
    SerialEvent → List Seen
  | .start t o l => [.start t (o.call E l)]
  | .decide t =>
    match s.thread t with
    | some (.asked o _) =>
      Decision.outward os t (errorInject E o.path o.op) (s.world.askedBy (callers t))
    | _ => []
  | .run t =>
    match s.thread t with
    | some (.decided (.done a)) => [.ended t a]
    | some (.decided (.call c _)) => [.sys t c (os.kernel c s.world.base).1]
    | _ => []

/-- What decisions depend on besides the file system: a null pointer for the list is as
good as an empty one. -/
def World.faults (w : World β) : List ErrinjConf × (Nat → Nat) := (w.errors.getD [], w.draws)

-- ---------------------------------------------------------------------------
-- The decision inside the lock
-- ---------------------------------------------------------------------------

variable {os : OS β} {E : Setup} {callers : Nat → Option Int}

theorem Operation.call_eq (o : Operation) (l : Local) :
    o.call E l = (errorInject E o.path o.op).inl >>= fun rc => (o.after l rc).inr := by
  unfold Operation.call Operation.after
  refine congrArg _ (funext fun rc => ?_)
  split
  · rfl
  · split
    · rfl
    · rfl

def installing (errors : Option (List ErrinjConf)) : Decision Int :=
  .call (S := daemonSig) (.setErrors errors) fun _ => .call (S := daemonSig) .unlock fun _ => .done 0

def reading (E : Setup) : Decision Int :=
  .call (S := daemonSig) (.slurp E.configPath) fun (file : Option (List UInt8)) =>
    installing (file.map errinjList)

def looking (E : Setup) : Decision Int :=
  .call (S := daemonSig) (.access E.configPath) fun (found : Int) =>
    if found = 0 then reading E else installing (some [])

def walking (E : Setup) (path : CStr) (op : FuseOp) : Decision Int :=
  .call (S := daemonSig) .errors fun (errors : Option (List ErrinjConf)) =>
    injectEach E path op (errors.getD []) 0 >>= fun rc =>
      .call (S := daemonSig) .unlock fun _ => .done rc

theorem errorInject_config_eq (op : FuseOp) :
    errorInject E E.configPath op = .call (S := daemonSig) .lock fun _ => looking E := by
  have hload (file : Option (List UInt8)) :
      (if (Conf.iniParse confOptionHandler file []).1 < 0 then none
        else some (Conf.iniParse confOptionHandler file []).2) = file.map errinjList := by
    cases file with
    | none => rfl
    | some bytes =>
      rw [if_neg (Int.not_lt.mpr (Conf.iniParse_nonneg bytes [])), Conf.iniParse_user]
      rfl
  unfold errorInject configInit looking reading
  simp only [↓reduceIte, Prog.ask, Prog.call_bind, Prog.done_bind]
  refine congrArg _ (funext fun _ => congrArg _ (funext fun found => ?_))
  by_cases hf : found = 0
  · simp only [hf, ↓reduceIte, Prog.call_bind]
    refine congrArg _ (funext fun file => ?_)
    rw [← hload]
    by_cases hn : (Conf.iniParse confOptionHandler file []).1 < 0
    · simp only [hn, ↓reduceIte]
      rfl
    · simp only [hn, ↓reduceIte]
      rfl
  · simp only [hf, ↓reduceIte]
    rfl

theorem errorInject_other_eq {path : CStr} (hp : path ≠ E.configPath) (op : FuseOp) :
    errorInject E path op = .call (S := daemonSig) .lock fun _ => walking E path op := by
  unfold errorInject walking
  simp only [hp, ↓reduceIte, Prog.ask, Prog.call_bind, Prog.done_bind]
  refine congrArg _ (funext fun _ => congrArg _ (funext fun errors => ?_))
  cases errors with
  | none => rfl
  | some errors => rfl

/-- A call of a decision that neither looks at the file system nor touches the mutex. -/
def Inward (os : OS β) (c : DaemonCall) : Prop :=
  Prog.Only.Ignores World.basePart (daemon os) c ∧ daemonDiscipline.use c = .none

theorem randRange_only (minN maxN : Int) : (randRange minN maxN).Only (Inward os) :=
  .call ⟨fun _ _ => rfl, rfl⟩ fun _ => .done _

theorem act_only (op : FuseOp) (err : ErrinjConf) (rc : Int) : (act E op err rc).Only (Inward os) := by
  unfold act
  cases err.type with
  | noop => exact .done _
  | killCaller =>
    refine .call ⟨fun _ _ => rfl, rfl⟩ fun (cxt : Option Int) => ?_
    cases cxt with
    | none => exact .done _
    | some pid => exact .call ⟨fun _ _ => rfl, rfl⟩ fun _ => .done _
  | errno =>
    refine Prog.Only.bind ?_ fun _ => .done _
    unfold opRandomErrno
    split
    · exact .done _
    · exact (randRange_only _ _).bind fun _ => .done _
  | slowdown => exact .call ⟨fun _ _ => rfl, rfl⟩ fun _ => .done _

variable (os) in
theorem injectEach_only (path : CStr) (op : FuseOp) (errors : List ErrinjConf) (rc : Int) :
    (injectEach E path op errors rc).Only (Inward os) := by
  induction errors generalizing rc with
  | nil => exact .done _
  | cons err rest ih =>
    refine (randRange_only _ _).bind fun p => ?_
    dsimp only
    split
    · exact ih rc
    · split
      · exact ih rc
      · exact .call ⟨fun _ _ => rfl, rfl⟩ fun _ => (act_only op err rc).bind fun rc' => ih rc'

theorem installing_closing (errors : Option (List ErrinjConf)) :
    (installing errors).Closing (Inward os) (.unlock : DaemonCall) :=
  .call ⟨fun _ _ => rfl, rfl⟩ fun _ => .last fun _ => 0

theorem walking_closing (path : CStr) (op : FuseOp) :
    (walking E path op).Closing (Inward os) (.unlock : DaemonCall) :=
  .call ⟨fun _ _ => rfl, rfl⟩ fun _ =>
    .of_only (injectEach_only os path op _ 0) fun rc => .last fun _ => rc

-- ---------------------------------------------------------------------------
-- Decisions on two worlds
-- ---------------------------------------------------------------------------

theorem World.faults_skip {w a : World β} (h : w.faults = a.faults) (n : Nat) :
    (w.skip n).faults = (a.skip n).faults := by
  simp only [World.faults, Prod.mk.injEq] at h
  simp [World.faults, World.skip, World.withDraws, h.1, h.2]

variable (os E) in
theorem walking_replays (path : CStr) (op : FuseOp) (w : World β) :
    (walking E path op).run (daemon os) w = some
        ((((visits E path op w.faults.1 w.draws).filterMap (Visit.code? E path op)).getLast?).getD 0,
          w.skip (drawnIn (visits E path op w.faults.1 w.draws)).length) ∧
      Decision.calls os (walking E path op) w =
        (.errors :: (visits E path op w.faults.1 w.draws).flatMap
          (Visit.calls E path op · w.caller)) ++ [.unlock] := by
  obtain ⟨hrun, hcalls⟩ := injectEach_replays os E path op w.faults.1 0 w
  have hbind := calls_bind (f := fun rc => Prog.call (S := daemonSig) .unlock fun _ => .done rc) hrun
  constructor
  · simp only [World.faults] at hrun
    simp only [walking, Prog.run_call, daemon, Prog.run_bind, World.faults, hrun]
    rfl
  · rw [hcalls] at hbind
    exact congrArg (DaemonCall.errors :: ·) hbind

variable (os) in
/-- A decision on another path is the same from the moment its thread has the mutex. -/
theorem decision_other (t : Nat) {path : CStr} (hp : path ≠ E.configPath) (op : FuseOp)
    {w a : World β} (hf : w.faults = a.faults) (hc : w.caller = a.caller) :
    (∃ w', (walking E path op).run (daemon os) w = some (a.decision os E path op, w') ∧
      w'.faults = (a.decided os E path op).faults) ∧
    Decision.outward os t (walking E path op) w =
      Decision.outward os t (errorInject E path op) a := by
  have hd : w.draws = a.draws := congrArg Prod.snd hf
  have hlock : (errorInject E path op).run (daemon os) a = (walking E path op).run (daemon os) a ∧
      Decision.calls os (errorInject E path op) a =
        .lock :: Decision.calls os (walking E path op) a := by
    rw [errorInject_other_eq hp]
    exact ⟨rfl, rfl⟩
  obtain ⟨hrun, hcalls⟩ := walking_replays os E path op w
  obtain ⟨hrun', hcalls'⟩ := walking_replays os E path op a
  have hdec : _ = some (a.decision os E path op, a.decided os E path op) := errorInject_run a path op
  rw [hlock.1, hrun', Option.some.injEq, Prod.mk.injEq] at hdec
  rw [hf, hd] at hrun hcalls
  constructor
  · rw [hdec.1] at hrun
    refine ⟨_, hrun, ?_⟩
    rw [← hdec.2]
    exact World.faults_skip hf _
  · simp only [Decision.outward, hlock.2, hcalls, hcalls', hc]
    rfl

theorem installing_run (errors : Option (List ErrinjConf)) (w : World β) :
    (installing errors).run (daemon os) w = some (0, { w with errors }) := rfl

theorem outward_installing (t : Nat) (errors : Option (List ErrinjConf)) (w : World β) :
    Decision.outward os t (installing errors) w = [] := rfl

theorem outward_config (t : Nat) (op : FuseOp) (w : World β) :
    Decision.outward os t (errorInject E E.configPath op) w = [] := by
  rw [errorInject_config_eq]
  unfold Decision.outward Decision.calls looking
  by_cases hf : os.access w.base E.configPath = 0
  · simp [daemon, hf, reading, installing, DaemonCall.isOutward]
  · simp [daemon, hf, installing, DaemonCall.isOutward]

-- ---------------------------------------------------------------------------
-- Runs of the threads as runs of whole decisions
-- ---------------------------------------------------------------------------

/-- A thread without the mutex is where its request is in the other machine. -/
inductive Settled (E : Setup) : Option (Prog fullSig (Int × Local)) → Option Phase → Prop
  | idle : Settled E none none
  | asked (o : Operation) (l : Local) : Settled E (some (o.call E l)) (some (.asked o l))
  | decided (p : Prog sysSig (Int × Local)) : Settled E (some p.inr) (some (.decided p))

theorem Settled.cases {p : Option (Prog fullSig (Int × Local))} {ph : Option Phase}
    (h : Settled E p ph) : (p = none ∧ ph = none) ∨
      (∃ o l, p = some (o.call E l) ∧ ph = some (.asked o l)) ∨
      ∃ q : Prog sysSig (Int × Local), p = some q.inr ∧ ph = some (.decided q) := by
  cases h with
  | idle => exact .inl ⟨rfl, rfl⟩
  | asked o l => exact .inr (.inl ⟨o, l, rfl, rfl⟩)
  | decided q => exact .inr (.inr ⟨q, rfl, rfl⟩)

/-- The stages of a load, up to the new list. -/
def Loads (E : Setup) (d : Decision Int) : Prop :=
  d = looking E ∨ d = reading E ∨ ∃ errors, d = installing errors

/-- A thread is loading the configuration. -/
def Daemon.Reloading (E : Setup) (s : Daemon β) (t : Nat) : Prop :=
  s.holder = some t ∧ ∃ d f, Loads E d ∧ s.thread t = some (d.inl >>= f)

/-- A system call in the course of a load does not change what is to be read. -/
def UndisturbedLoad (os : OS β) (E : Setup) (s : Daemon β) (e : ThreadEvent fullSig (Int × Local)) :
    Prop :=
  ∀ t t₀ c k, e = .run t → s.thread t = some (.call (S := fullSig) (Sum.inr c) k) →
    s.Reloading E t₀ → Session.SameConfig os E s.shared.base (os.kernel c s.shared.base).2

/-- The thread with the mutex: its decision has been taken when the configuration has
been looked at, and on other paths when it got the mutex. What it will still do
outwardly is the last argument. -/
inductive Holding (os : OS β) (E : Setup) (t : Nat) (caller : Option Int) (w a : World β) :
    Prog fullSig (Int × Local) → Phase → List Seen → Prop
  | loading {o : Operation} {l : Local} {d : Decision Int} : o.path = E.configPath →
      d = looking E ∨ d = reading E ∧ os.access w.base E.configPath = 0 → w.faults = a.faults →
      Holding os E t caller w a (d.inl >>= fun rc => (o.after l rc).inr) (.asked o l) []
  | decided {o : Operation} {l : Local} {d : Decision Int} {rc : Int} {w' : World β} :
      d.Closing (Inward os) (.unlock : DaemonCall) →
      d.run (daemon os) (w.askedBy caller) = some (rc, w') → w'.faults = a.faults →
      Holding os E t caller w a (d.inl >>= fun rc => (o.after l rc).inr) (.decided (o.after l rc))
        (Decision.outward os t d (w.askedBy caller))

structure Related (os : OS β) (E : Setup) (callers : Nat → Option Int) (s : Daemon β) (ls : List Seen)
    (a : Serial β) (ls' pending : List Seen) : Prop where
  base : s.shared.base = a.world.base
  settled : ∀ t, s.holder ≠ some t → Settled E (s.thread t) (a.thread t)
  free : s.holder = none → pending = [] ∧ s.shared.faults = a.world.faults
  held : ∀ t, s.holder = some t → ∃ p ph, s.thread t = some p ∧ a.thread t = some ph ∧
    Holding os E t (callers t) s.shared a.world p ph pending
  order : ∀ keep, Seen.Orderly keep → ls.filter keep ++ pending.filter keep = ls'.filter keep

theorem inward_only {d : Decision Int} (h : d.Closing (Inward os) (.unlock : DaemonCall)) :
    d.Only (Prog.Only.Ignores World.basePart (daemon os)) :=
  h.only (fun _ hc => hc.1) fun _ _ => rfl

namespace Holding

variable {t : Nat} {caller : Option Int} {w w₁ a a₁ : World β} {p : Prog fullSig (Int × Local)}
  {ph : Phase} {pending : List Seen}

/-- System calls of other threads do not disturb it. -/
theorem rebase (h : Holding os E t caller w a p ph pending) (b : β)
    (hw : w₁.askedBy caller = World.basePart.put b (w.askedBy caller)) (ha : a₁.faults = a.faults)
    (hquiet : (∃ d f, Loads E d ∧ p = d.inl >>= f) →
      os.access b E.configPath = os.access w.base E.configPath) :
    Holding os E t caller w₁ a₁ p ph pending := by
  cases h with
  | loading hp hd hf =>
    refine .loading hp (hd.imp_right fun hd => ⟨hd.1, ?_⟩)
      ((congrArg World.faults hw).trans (hf.trans ha.symm))
    have hbase : w₁.base = b := congrArg World.base hw
    rw [hbase, hquiet ⟨_, _, .inr (.inl hd.1), rfl⟩, hd.2]
  | @decided o l d rc w' hd hrun hf =>
    have ho : Decision.outward os t d (w₁.askedBy caller) =
        Decision.outward os t d (w.askedBy caller) := by
      simp only [Decision.outward, Decision.calls, hw, (inward_only hd).calls_put]
    rw [← ho]
    have hrun' : d.run (daemon os) (w₁.askedBy caller) = some (rc, World.basePart.put b w') := by
      rw [hw, (inward_only hd).run_put, hrun]
      rfl
    exact .decided hd hrun' (hf.trans ha.symm)

theorem pending_thread (h : Holding os E t caller w a p ph pending) :
    ∀ y ∈ pending, y.isOutward = true ∧ y.thread = t := by
  intro y hy
  cases h with
  | loading => cases hy
  | decided =>
    obtain ⟨c, -, rfl⟩ := List.mem_map.mp hy
    exact ⟨rfl, rfl⟩

end Holding

theorem order_append {ls ls' pending : List Seen} {x : Seen}
    (ho : ∀ keep, Seen.Orderly keep → ls.filter keep ++ pending.filter keep = ls'.filter keep)
    (hp : ∀ y ∈ pending, y.isOutward = true ∧ y.thread ≠ x.thread) (hx : x.isOutward = false) :
    ∀ keep, Seen.Orderly keep →
      (ls ++ [x]).filter keep ++ pending.filter keep = (ls' ++ [x]).filter keep := by
  intro keep hk
  simp only [List.filter_append, ← ho keep hk, List.append_assoc, List.append_cancel_left_eq]
  by_cases hkx : keep x = true
  · have hn : pending.filter keep = [] := by
      refine List.filter_eq_nil_iff.mpr fun y hy hky => ?_
      exact (hp y hy).2 (hk y x hky hkx (hp y hy).1 hx)
    simp [hn]
  · simp [hkx]

theorem settled_update {P : Nat → Prop} {f : Nat → Option (Prog fullSig (Int × Local))}
    {g : Nat → Option Phase} {t : Nat} {p : Option (Prog fullSig (Int × Local))} {ph : Option Phase}
    (h : ∀ t', t' ≠ t → P t' → Settled E (f t') (g t')) (ht : P t → Settled E p ph) :
    ∀ t', P t' → Settled E (Function.update f t p t') (Function.update g t ph t') := by
  intro t' hP
  by_cases hne : t' = t
  · subst hne
    simpa using ht hP
  · simpa [hne] using h t' hne hP

namespace Related

variable {s : Daemon β} {a : Serial β} {ls ls' pending : List Seen}

theorem pending_apart (hR : Related os E callers s ls a ls' pending) {t : Nat}
    (ht : s.holder ≠ some t) : ∀ y ∈ pending, y.isOutward = true ∧ y.thread ≠ t := by
  intro y hy
  cases hh : s.holder with
  | none => simp [(hR.free hh).1] at hy
  | some t₀ =>
    obtain ⟨p, ph, -, -, hH⟩ := hR.held t₀ hh
    obtain ⟨ho, rfl⟩ := hH.pending_thread y hy
    exact ⟨ho, fun he => ht (he ▸ hh)⟩

theorem free_step (hR : Related os E callers s ls a ls' pending) {t : Nat} (hn : s.holder ≠ some t)
    {w₁ a₁ : World β} {p : Option (Prog fullSig (Int × Local))} {ph : Option Phase} {x : Seen}
    (hset : Settled E p ph) (hx : x.isOutward = false) (hxt : x.thread = t) (hb : w₁.base = a₁.base)
    (hw : ∀ c, w₁.askedBy c = World.basePart.put w₁.base (s.shared.askedBy c))
    (ha : a₁.faults = a.world.faults)
    (hquiet : ∀ t₀, s.Reloading E t₀ →
      os.access w₁.base E.configPath = os.access s.shared.base E.configPath) :
    Related os E callers ⟨w₁, s.holder, Function.update s.thread t p⟩ (ls ++ [x])
      ⟨a₁, Function.update a.thread t ph⟩ (ls' ++ [x]) pending := by
  constructor
  case base => exact hb
  case settled => exact settled_update (fun t' _ h => hR.settled t' h) fun _ => hset
  case free =>
    intro hh
    obtain ⟨hp, hf⟩ := hR.free hh
    exact ⟨hp, (congrArg World.faults (hw none)).trans (hf.trans ha.symm)⟩
  case held =>
    intro t₀ hh
    have hne : t₀ ≠ t := fun he => hn (he ▸ hh)
    obtain ⟨q, ph₀, hq, hph, hH⟩ := hR.held t₀ hh
    have hkeeps : (∃ d f, Loads E d ∧ q = d.inl >>= f) →
        os.access w₁.base E.configPath = os.access s.shared.base E.configPath := by
      rintro ⟨d, f, hd, rfl⟩
      exact hquiet t₀ ⟨hh, d, f, hd, hq⟩
    exact ⟨q, ph₀, by simp [hne, hq], by simp [hne, hph], hH.rebase _ (hw _) ha hkeeps⟩
  case order => exact order_append hR.order (hxt ▸ hR.pending_apart hn) hx

theorem held_step (hR : Related os E callers s ls a ls' pending) {t : Nat}
    (hn : s.holder = none ∨ s.holder = some t) {w₁ a₁ : World β} {p : Prog fullSig (Int × Local)}
    {ph : Phase} {ls₁ ls₂ pending₁ : List Seen}
    (hH : Holding os E t (callers t) w₁ a₁ p ph pending₁) (hb : w₁.base = a₁.base)
    (ho : ∀ keep, Seen.Orderly keep → ls₁.filter keep ++ pending₁.filter keep = ls₂.filter keep) :
    Related os E callers ⟨w₁, some t, Function.update s.thread t (some p)⟩ ls₁
      ⟨a₁, Function.update a.thread t (some ph)⟩ ls₂ pending₁ := by
  constructor
  case base => exact hb
  case settled =>
    refine settled_update (fun t' hne _ => hR.settled t' ?_) fun hne => absurd rfl hne
    rcases hn with hn | hn
    · simp [hn]
    · simpa [hn] using hne.symm
  case free => exact fun hh => nomatch hh
  case held =>
    rintro _ ⟨⟩
    exact ⟨p, ph, by simp, by simp, hH⟩
  case order => exact ho

theorem held_silent (hR : Related os E callers s ls a ls' pending) {t : Nat}
    (hn : s.holder = none ∨ s.holder = some t) {w₁ : World β} {p : Prog fullSig (Int × Local)}
    {ph : Phase} {ls₁ pending₁ : List Seen} (hph : a.thread t = some ph)
    (hH : Holding os E t (callers t) w₁ a.world p ph pending₁) (hb : w₁.base = s.shared.base)
    (ho : ∀ keep, Seen.Orderly keep → ls₁.filter keep ++ pending₁.filter keep = ls'.filter keep) :
    Related os E callers ⟨w₁, some t, Function.update s.thread t (some p)⟩ ls₁ a ls' pending₁ := by
  have hR' := hR.held_step hn hH (hb.trans hR.base) ho
  rwa [← hph, Function.update_eq_self] at hR'

theorem unlock_step (hR : Related os E callers s ls a ls' pending) {t : Nat}
    (hh : s.holder = some t) {w₁ : World β} {q : Prog sysSig (Int × Local)}
    (hq : a.thread t = some (.decided q)) (hp : pending = []) (hb : w₁.base = s.shared.base)
    (hf : w₁.faults = a.world.faults) :
    Related os E callers ⟨w₁, none, Function.update s.thread t (some q.inr)⟩ ls a ls' [] := by
  constructor
  case base => exact hb.trans hR.base
  case settled =>
    have hset : ∀ t', (none : Option Nat) ≠ some t' →
        Settled E (Function.update s.thread t (some q.inr) t')
          (Function.update a.thread t (some (.decided q)) t') := by
      refine settled_update (fun t' hne _ => hR.settled t' ?_) fun _ => .decided q
      simpa [hh] using hne.symm
    rwa [← hq, Function.update_eq_self] at hset
  case free => exact fun _ => ⟨rfl, hf⟩
  case held => exact fun _ hh => nomatch hh
  case order => exact hp ▸ hR.order

end Related

-- ---------------------------------------------------------------------------
-- The steps
-- ---------------------------------------------------------------------------

def SerialEvent.Requested (e : SerialEvent) : Prop :=
  ∀ t o l, e = .start t o l → ∃ (r : Request) (fuel : Nat), o = r.operation fuel

theorem requested_decide (t : Nat) : (SerialEvent.decide t).Requested :=
  fun _ _ _ he => absurd he (by simp)

theorem requested_run (t : Nat) : (SerialEvent.run t).Requested :=
  fun _ _ _ he => absurd he (by simp)

abbrev Serial.Runs (os : OS β) (E : Setup) (callers : Nat → Option Int) (w : World β)
    (ls : List Seen) (a : Serial β) : Prop :=
  Run (serial os E callers) (fun _ e => e.Requested) (fun a e _ => a.seen os E callers e)
    { world := w } ls a

abbrev Daemon.Runs (os : OS β) (E : Setup) (callers : Nat → Option Int) (w : World β)
    (ls : List Seen) (s : Daemon β) : Prop :=
  Run (threads os callers) (fun s e => UnreliableFS.Requested E e ∧ UndisturbedLoad os E s e)
    (fun s e _ => s.seen os e) { shared := w } ls s

def inside (E : Setup) (o : Operation) : Decision Int :=
  if o.path = E.configPath then looking E else walking E o.path o.op

theorem Operation.call_lock (o : Operation) (l : Local) :
    o.call E l = .call (S := fullSig) (Sum.inl .lock) fun _ =>
      (inside E o).inl >>= fun rc => (o.after l rc).inr := by
  unfold inside
  by_cases hp : o.path = E.configPath
  · rw [o.call_eq, hp, errorInject_config_eq, if_pos rfl]
    rfl
  · rw [o.call_eq, errorInject_other_eq hp, if_neg hp]
    rfl

theorem daemon_keeps {c : DaemonCall} (hc : Inward os c) (w : World β) (caller : Option Int) :
    (daemon os c (w.askedBy caller)).2.base = w.base ∧
      (daemon os c (w.askedBy caller)).2.askedBy caller = (daemon os c (w.askedBy caller)).2 := by
  constructor
  · have hput := hc.1 w.base (w.askedBy caller)
    exact congrArg (fun r => World.base r.2) hput
  · cases c <;> rfl

variable (os callers) in
theorem threads_inl {s : Daemon β} {t : Nat} {c : DaemonCall} {k : c.Reply → Decision Int}
    {f : Int → Prog fullSig (Int × Local)} (hl : daemonDiscipline.use c ≠ .lock)
    (ht : s.thread t = some ((Prog.call (S := daemonSig) c k).inl >>= f)) :
    threads os callers s (.run t) = some (none, {
        shared := (daemon os c (s.shared.askedBy (callers t))).2
        holder := (daemonDiscipline.use c).holderAfter t s.holder
        thread := Function.update s.thread t
          (some ((k (daemon os c (s.shared.askedBy (callers t))).1).inl >>= f)) }) ∧
      s.seen os (.run t) = if c.isOutward then [.outward t c] else [] := by
  have ht' : s.thread t = some (.call (S := fullSig) (Sum.inl c) fun r => (k r).inl >>= f) := ht
  constructor
  · unfold threads Threads.step
    simp only [ht']
    exact if_neg fun h => hl h.1
  · simp only [Daemon.seen, ht']

namespace Related

variable {s : Daemon β} {a : Serial β} {ls ls' pending : List Seen} {w : World β} {t : Nat}

theorem step_lock (hR : Related os E callers s ls a ls' pending)
    (ha : Serial.Runs os E callers w ls' a) (hh : s.holder = none) {o : Operation} {l : Local}
    (hph : a.thread t = some (.asked o l)) :
    ∃ a' ls₁ pending₁, Serial.Runs os E callers w ls₁ a' ∧
      Related os E callers ⟨s.shared.askedBy (callers t), some t, Function.update s.thread t
        (some ((inside E o).inl >>= fun rc => (o.after l rc).inr))⟩ ls a' ls₁ pending₁ := by
  obtain ⟨rfl, hf⟩ := hR.free hh
  by_cases hp : o.path = E.configPath
  · have hH : Holding os E t (callers t) (s.shared.askedBy (callers t)) a.world _ (.asked o l) [] :=
      .loading hp (.inl rfl) hf
    rw [inside, if_pos hp]
    exact ⟨a, ls', [], ha, hR.held_silent (.inl hh) hph hH rfl hR.order⟩
  · obtain ⟨⟨w', hrun, hf'⟩, hout⟩ := decision_other os t hp o.op
      (w := s.shared.askedBy (callers t)) (a := a.world.askedBy (callers t)) hf rfl
    have hH : Holding os E t (callers t) (s.shared.askedBy (callers t))
        ((a.world.askedBy (callers t)).decided os E o.path o.op) _ _ _ :=
      .decided (o := o) (l := l) (walking_closing o.path o.op) hrun hf'
    have hstep := ha.step (requested_decide t)
      (by simp only [serial, hph]; rfl)
    simp only [Serial.seen, hph, ← hout] at hstep
    rw [inside, if_neg hp]
    refine ⟨_, _, _, hstep, hR.held_step (.inl hh) hH ?_ fun keep hk => ?_⟩
    · rw [decided_base, OS.atBody_other os hp]
      exact hR.base
    · simp only [List.filter_append, ← hR.order keep hk]
      simp [World.askedBy]

theorem step_loaded (hR : Related os E callers s ls a ls' pending)
    (ha : Serial.Runs os E callers w ls' a) (hh : s.holder = some t) {o : Operation} {l : Local}
    (hph : a.thread t = some (.asked o l)) (hp : o.path = E.configPath) (hpend : pending = [])
    (hf : s.shared.faults = a.world.faults) :
    ∃ a' ls₁ pending₁, Serial.Runs os E callers w ls₁ a' ∧
      Related os E callers
        ⟨{ s.shared.askedBy (callers t) with base := os.afterLoad s.shared.base E.configPath }, some t,
          Function.update s.thread t (some ((installing (os.loaded s.shared.base E.configPath)).inl >>=
            fun rc => (o.after l rc).inr))⟩ ls a' ls₁ pending₁ := by
  have hstep := ha.step (requested_decide t)
    (by simp only [serial, hph]; rfl)
  simp only [Serial.seen, hph, hp, outward_config, List.append_nil, decision_config, decided_config]
    at hstep
  have hbase : (a.world.askedBy (callers t)).base = s.shared.base := hR.base.symm
  rw [hbase] at hstep
  have hH : Holding os E t (callers t)
      { s.shared.askedBy (callers t) with base := os.afterLoad s.shared.base E.configPath }
      { a.world.askedBy (callers t) with
        base := os.afterLoad s.shared.base E.configPath
        errors := os.loaded s.shared.base E.configPath } _ _ _ :=
    .decided (o := o) (l := l) (installing_closing (os.loaded s.shared.base E.configPath))
      (installing_run _ _) (by simpa [World.faults, World.askedBy] using congrArg Prod.snd hf)
  refine ⟨_, _, _, hstep, hR.held_step (.inr hh) hH rfl ?_⟩
  simpa [hpend, outward_installing] using hR.order

theorem step_held (hR : Related os E callers s ls a ls' pending)
    (ha : Serial.Runs os E callers w ls' a) (hh : s.holder = some t) {out : Option (Int × Local)}
    {s' : Daemon β} (hs : threads os callers s (.run t) = some (out, s')) :
    ∃ a' ls₁ pending₁, Serial.Runs os E callers w ls₁ a' ∧
      Related os E callers s' (ls ++ s.seen os (.run t)) a' ls₁ pending₁ := by
  obtain ⟨p, ph, ht, hph, hH⟩ := hR.held t hh
  cases hH with
  | @loading o l d hp hd hf =>
    rcases hd with rfl | ⟨rfl, hfound⟩
    · obtain ⟨hstep, hseen⟩ := threads_inl os callers (by simp [daemonDiscipline]) ht
      rw [hs] at hstep
      cases hstep
      simp only [hseen, hh, DaemonCall.isOutward, Bool.false_eq_true, ↓reduceIte, List.append_nil]
      by_cases hfound : os.access s.shared.base E.configPath = 0
      · have hH : Holding os E t (callers t) (s.shared.askedBy (callers t)) a.world _ _ [] :=
          .loading (o := o) (l := l) hp (.inr ⟨rfl, hfound⟩) hf
        refine ⟨a, ls', [], ha, hR.held_silent (.inr hh) hph ?_ rfl hR.order⟩
        simpa [daemon, World.askedBy, hfound] using hH
      · have hl := hR.step_loaded ha hh hph hp rfl hf
        simpa [daemon, World.askedBy, OS.loaded, OS.afterLoad, hfound, daemonDiscipline,
          MutexUse.holderAfter] using hl
    · obtain ⟨hstep, hseen⟩ := threads_inl os callers (by simp [daemonDiscipline]) ht
      rw [hs] at hstep
      cases hstep
      simp only [hseen, hh, DaemonCall.isOutward, Bool.false_eq_true, ↓reduceIte, List.append_nil]
      have hl := hR.step_loaded ha hh hph hp rfl hf
      simpa [daemon, World.askedBy, OS.loaded, OS.afterLoad, hfound, daemonDiscipline,
        MutexUse.holderAfter] using hl
  | @decided o l d rc w' hd hrun hf =>
    cases hd with
    | last k =>
      obtain ⟨hstep, hseen⟩ := threads_inl os callers (by simp [daemonDiscipline]) ht
      rw [hs] at hstep
      cases hstep
      cases hrun
      simp only [hseen, DaemonCall.isOutward, Bool.false_eq_true, ↓reduceIte, List.append_nil]
      exact ⟨a, ls', [], ha, hR.unlock_step hh hph rfl rfl hf⟩
    | @call c k hc hk =>
      obtain ⟨hstep, hseen⟩ := threads_inl os callers (by simp [hc.2]) ht
      rw [hs] at hstep
      cases hstep
      obtain ⟨hbase, hasked⟩ := daemon_keeps hc s.shared (callers t)
      have hH : Holding os E t (callers t) (daemon os c (s.shared.askedBy (callers t))).2 a.world
          _ _ _ := .decided (o := o) (l := l) (hk _) (by rw [hasked]; exact hrun) hf
      simp only [hseen, hh, hc.2, MutexUse.holderAfter]
      refine ⟨a, ls', _, ha, hR.held_silent (.inr hh) hph hH hbase fun keep hkeep => ?_⟩
      rw [hasked, ← hR.order keep hkeep]
      by_cases hout : c.isOutward
      · simp [hout, Decision.outward, Decision.calls, ← List.filter_append]
      · simp [hout, Decision.outward, Decision.calls]

theorem step_free (hR : Related os E callers s ls a ls' pending)
    (ha : Serial.Runs os E callers w ls' a) (hn : s.holder ≠ some t)
    (hquiet : UndisturbedLoad os E s (.run t)) {out : Option (Int × Local)}
    {s' : Daemon β} (hs : threads os callers s (.run t) = some (out, s')) :
    ∃ a' ls₁ pending₁, Serial.Runs os E callers w ls₁ a' ∧
      Related os E callers s' (ls ++ s.seen os (.run t)) a' ls₁ pending₁ := by
  rcases (hR.settled t hn).cases with ⟨ht, hph⟩ | ⟨o, l, ht, hph⟩ | ⟨q, ht, hph⟩
  · simp [threads, Threads.step, ht] at hs
  · rw [o.call_lock] at ht
    simp only [threads, Threads.step, ht] at hs
    split at hs
    · cases hs
    · rename_i hfree
      have hh : s.holder = none := by
        by_contra hne
        exact hfree ⟨rfl, hne⟩
      have hseen : s.seen os (.run t) = [] := by
        simp only [Daemon.seen, ht]
        rfl
      cases hs
      rw [hseen, List.append_nil]
      exact hR.step_lock ha hh hph
  · cases q with
    | done r =>
      simp only [threads, Threads.step, ht, Prog.inr] at hs
      cases hs
      have hstep := ha.step (requested_run t)
        (by simp only [serial, hph]; rfl)
      simp only [Serial.seen, hph] at hstep
      simp only [Daemon.seen, ht]
      exact ⟨_, _, _, hstep,
        hR.free_step hn .idle rfl rfl hR.base (fun _ => rfl) rfl fun _ _ => rfl⟩
    | call c k =>
      have hstep := ha.step (requested_run t)
        (by simp only [serial, hph]; rfl)
      simp only [Serial.seen, hph, ← hR.base] at hstep
      have ht' : s.thread t = some (.call (S := fullSig) (Sum.inr c) fun r => (k r).inr) := ht
      have hseen : s.seen os (.run t) = [.sys t c (os.kernel c s.shared.base).1] := by
        simp only [Daemon.seen, ht']
      simp only [threads, Threads.step, ht'] at hs
      have hl : ¬(callDiscipline.use (Sum.inr c) = .lock ∧ s.holder ≠ none) :=
        fun h => MutexUse.noConfusion h.1
      rw [if_neg hl] at hs
      cases hs
      rw [hseen]
      exact ⟨_, _, _, hstep, hR.free_step hn (.decided _) rfl rfl rfl (fun _ => rfl) rfl
        fun t₀ hload => (hquiet t t₀ c _ rfl ht' hload).access⟩
    | stuck => simp [threads, Threads.step, ht, Prog.inr] at hs

theorem step (hR : Related os E callers s ls a ls' pending) (ha : Serial.Runs os E callers w ls' a)
    {e : ThreadEvent fullSig (Int × Local)} (hg : UnreliableFS.Requested E e)
    (hquiet : UndisturbedLoad os E s e) {out : Option (Int × Local)} {s' : Daemon β}
    (hs : threads os callers s e = some (out, s')) :
    ∃ a' ls₁ pending₁, Serial.Runs os E callers w ls₁ a' ∧
      Related os E callers s' (ls ++ s.seen os e) a' ls₁ pending₁ := by
  cases e with
  | run t =>
    by_cases hh : s.holder = some t
    · exact hR.step_held ha hh hs
    · exact hR.step_free ha hh hquiet hs
  | start t p =>
    obtain ⟨r, fuel, l, rfl⟩ := hg t p rfl
    obtain ⟨t', p, he, ht, rfl⟩ | ⟨t', _, he, -⟩ | ⟨t', _, _, he, -⟩ := Threads.step_cases hs
    · cases he
      have hn : s.holder ≠ some t := by
        intro hh
        obtain ⟨p, ph, hp, -⟩ := hR.held t hh
        simp [ht] at hp
      have hph : a.thread t = none := by
        rcases (hR.settled t hn).cases with ⟨-, hph⟩ | ⟨o, l, hp, -⟩ | ⟨q, hp, -⟩
        · exact hph
        · simp [ht] at hp
        · simp [ht] at hp
      have hstep := ha.step (i := .start t (r.operation fuel) l)
        (fun _ _ _ he => by cases he; exact ⟨r, fuel, rfl⟩) (by simp only [serial, hph]; rfl)
      exact ⟨_, _, _, hstep,
        hR.free_step hn (.asked _ l) rfl rfl hR.base (fun _ => rfl) rfl fun _ _ => rfl⟩
    · cases he
    · cases he

end Related

theorem looking_releases : (looking E).Releases daemonDiscipline false true := by
  have hinst (errors : Option (List ErrinjConf)) :
      (installing errors).Releases daemonDiscipline false true :=
    .call trivial fun _ => .call rfl fun _ => .done 0
  refine .call trivial fun (found : Int) => ?_
  change (if found = 0 then reading E else installing (some [])).Releases daemonDiscipline false true
  split
  · exact .call trivial fun file => hinst _
  · exact hinst _

variable (os) in
include os in
theorem walking_releases (path : CStr) (op : FuseOp) :
    (walking E path op).Releases daemonDiscipline false true := by
  refine .call trivial fun (errors : Option (List ErrinjConf)) => ?_
  refine Prog.Releases.bind (.of_only ?_) fun rc => .call rfl fun _ => .done rc
  exact (injectEach_only os path op _ 0).mono fun _ hc => hc.2

variable (os) in
include os in
theorem Operation.call_releases (o : Operation) (l : Local) :
    (o.call E l).Releases callDiscipline false false := by
  rw [o.call_lock]
  have hin : (inside E o).Releases daemonDiscipline false true := by
    unfold inside
    split
    · exact looking_releases
    · exact walking_releases os o.path o.op
  exact .call rfl fun _ => hin.inl.bind fun rc => .inr _

/-- In every state the threads can come to, the one that decides gives the mutex back by
its own steps, whatever the others do not do; and no state is a deadlock. -/
theorem mutex_given_back (os : OS β) (E : Setup) (callers : Nat → Option Int) (w : World β)
    (s : Daemon β) (hr : Reachable (threads os callers) (fun _ e => Requested E e) { shared := w } s) :
    (∀ t, s.holder = some t → ∃ s', Reachable (threads os callers) (fun _ e => e = .run t) s s' ∧
        s'.holder = none ∧ ∀ t', t' ≠ t → s'.thread t' = s.thread t') ∧
      ∀ t p, s.thread t = some p → p ≠ .stuck →
        ∃ t' out s', threads os callers s (.run t') = some (out, s') := by
  have hi : s.Releasing callDiscipline := by
    refine Threads.releasing_of_reachable (fun _ e hg t p he => ?_) hr
    obtain ⟨r, fuel, l, rfl⟩ := hg t p he
    exact (r.operation fuel).call_releases os l
  constructor
  · intro t hh
    obtain ⟨p, hp⟩ := Option.ne_none_iff_exists'.mp (hi.running t hh)
    exact Threads.alone_unlocks (by simpa [hh] using hi.releases t p hp) hp hh
  · exact fun t p ht hp => hi.can_run ht hp

theorem mutex_given_back_slow : ∃ s s', s.holder = some 0 ∧ s.thread 1 ≠ none ∧
    Reachable (threads (Posix.posix .small) fun _ => none) (fun _ e => e = .run 0) s s' ∧
    s'.holder = none ∧ s'.thread 1 = s.thread 1 := by
  have hstart (t : Nat) (path : CStr) : Requested literalSetup
      (.start t ((unreliableGetattr path).call literalSetup .zero)) := by
    rintro _ _ ⟨⟩
    exact ⟨.getattr path, 0, .zero, rfl⟩
  have hrun (t : Nat) : Requested literalSetup (.run t) := fun _ _ he => absurd he (by simp)
  have h : Reachable (threads (Posix.posix .small) fun _ => none) (fun _ e => Requested literalSetup e)
    { shared := Posix.bootWorld .root (some [entrySlow]) } { shared := _ } := .refl
  have h := h.step (hstart 0 (ascii "/slow")) rfl
  have h := h.step (hstart 1 (ascii "/fast")) rfl
  have h := h.step (hrun 0) rfl
  obtain ⟨s', hr, hfree, hother⟩ := (mutex_given_back _ _ _ _ _ h).1 0 rfl
  exact ⟨_, s', rfl, Option.some_ne_none _, hr, hfree, hother 1 (by decide)⟩

end UnreliableFS
