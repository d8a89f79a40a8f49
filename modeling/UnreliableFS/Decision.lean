import UnreliableFS.Posix.Kernel

/-!
# What a decision draws, does and returns

`error_inject` as a replay: from the list in force and the random numbers to
come follows what every entry draws (`visits`), and from that the calls the
decision makes, in order, and the code it returns.
-/

namespace UnreliableFS

open Interaction

structure Visit where
  entry : ErrinjConf
  draw : Nat
  extra : Option Nat

variable {β : Type} (os : OS β) (E : Setup) (path : CStr) (op : FuseOp)

/-- What `RANDOM_ELEMENT` picks with this number from the table of an operation. -/
def errnoPicked (r : Nat) : Int :=
  match E.build.errnoTable op with
  | none => -1
  | some arr => (arr.map fun e => (E.build.code e : Int)).getD (r % (arr.length + 1)) (E.build.past op)

def visit (err : ErrinjConf) (draws : Nat → Nat) : Visit :=
  ⟨err, draws 0, if Triggers E path op err (draws 0) ∧ err.type = .errno ∧
    (E.build.errnoTable op).isSome then some (draws 1) else none⟩

def Visit.drawn (v : Visit) : List Nat := v.draw :: v.extra.toList

/-- The walk over a list, with these numbers to come. -/
def visits : List ErrinjConf → (Nat → Nat) → List Visit
  | [], _ => []
  | err :: rest, draws =>
    visit E path op err draws ::
      visits rest fun n => draws (n + (visit E path op err draws).drawn.length)

namespace Visit

variable (v : Visit)

def Triggered : Prop := Triggers E path op v.entry v.draw

instance : Decidable (v.Triggered E path op) := inferInstanceAs (Decidable (Triggers ..))

def code? : Option Int :=
  if v.Triggered E path op then
    match v.entry.type with
    | .noop => some (-ERRNO_NOOP)
    | .errno => some (-errnoPicked E op (v.extra.getD 0))
    | .killCaller | .slowdown => none
  else none

def acts (caller : Option Int) : List DaemonCall :=
  if v.Triggered E path op then
    match v.entry.type with
    | .killCaller => caller.toList.map fun pid => .kill pid DEFAULT_SIGNAL
    | .slowdown => [.nanosleep 0 v.entry.duration]
    | .noop | .errno => []
  else []

def calls (caller : Option Int) : List DaemonCall :=
  if v.Triggered E path op then
    .rand :: .triggered v.entry.type op path ::
      match v.entry.type with
      | .killCaller => .getContext :: v.acts E path op caller
      | .slowdown => v.acts E path op caller
      | .errno => v.extra.toList.map fun _ => .rand
      | .noop => []
  else [.rand]

end Visit

/-- The calls a decision makes, in order. -/
def Decision.calls {α : Type} (p : Decision α) (w : World β) : List DaemonCall :=
  (p.trace (daemon os) w).map (·.call)

def World.skip (w : World β) (n : Nat) : World β := w.withDraws fun i => w.draws (i + n)

theorem World.skip_add (w : World β) (m n : Nat) : w.skip (m + n) = (w.skip m).skip n := by
  simp only [World.skip, World.withDraws, Nat.add_assoc, Nat.add_comm n]

-- ---------------------------------------------------------------------------
-- One entry
-- ---------------------------------------------------------------------------

variable {os E path op}

theorem calls_bind {α γ : Type} {p : Decision α} {f : α → Decision γ} {w w' : World β} {a : α}
    (h : p.run (daemon os) w = some (a, w')) :
    Decision.calls os (p >>= f) w = Decision.calls os p w ++ Decision.calls os (f a) w' := by
  simp only [Decision.calls, Prog.trace_bind _ _ _ h, List.map_append]

variable (os) in
theorem opRandomErrno_replays {arr : List ErrnoName} (ht : E.build.errnoTable op = some arr)
    (w : World β) :
    (opRandomErrno E op).run (daemon os) w = some (errnoPicked E op (w.draws 0), w.skip 1) ∧
      Decision.calls os (opRandomErrno E op) w = [.rand] := by
  have hi : ((w.draws 0 : Int) % ((arr.length : Int) - 0 + 1) + 0).toNat =
      w.draws 0 % (arr.length + 1) := by
    have hm : (w.draws 0 : Int) % ((arr.length : Int) + 1) =
        ((w.draws 0 % (arr.length + 1) : Nat) : Int) := by simp
    rw [Int.sub_zero, Int.add_zero, hm, Int.toNat_natCast]
  unfold opRandomErrno errnoPicked
  rw [ht]
  constructor
  · simp only [randRange, Prog.ask, Prog.call_bind, Prog.pure_eq, Prog.done_bind, Prog.run_call,
      daemon, Prog.run_done, hi]
    rfl
  · rfl

variable (os) in
theorem act_replays {v : Visit} (hv : v.Triggered E path op) (rc : Int) (w : World β)
    (hx : v.extra = if v.entry.type = .errno ∧ (E.build.errnoTable op).isSome then some (w.draws 0)
      else none) :
    (act E op v.entry rc).run (daemon os) w =
        some ((v.code? E path op).getD rc, w.skip v.extra.toList.length) ∧
      .rand :: .triggered v.entry.type op path :: Decision.calls os (act E op v.entry rc) w =
        v.calls E path op w.caller := by
  have hc : v.calls E path op w.caller = .rand :: .triggered v.entry.type op path ::
      match v.entry.type with
      | .killCaller => .getContext :: v.acts E path op w.caller
      | .slowdown => v.acts E path op w.caller
      | .errno => v.extra.toList.map fun _ => .rand
      | .noop => [] := if_pos hv
  rw [hc]
  unfold Visit.code? Visit.acts act
  rw [if_pos hv, if_pos hv]
  cases ht : v.entry.type with
  | noop =>
    rw [hx, ht]
    exact ⟨rfl, rfl⟩
  | killCaller =>
    rw [hx, ht]
    simp only [Prog.ask, Prog.call_bind, Prog.done_bind, Prog.run_call, daemon, Decision.calls,
      Prog.trace_call]
    cases w.caller with
    | none => exact ⟨rfl, rfl⟩
    | some pid => exact ⟨rfl, rfl⟩
  | slowdown =>
    rw [hx, ht]
    exact ⟨rfl, rfl⟩
  | errno =>
    rw [hx, ht]
    cases htab : E.build.errnoTable op with
    | none =>
      simp only [opRandomErrno, errnoPicked, htab]
      exact ⟨rfl, rfl⟩
    | some arr =>
      obtain ⟨hrun, hcalls⟩ := opRandomErrno_replays os htab w
      have hbind := calls_bind (f := fun rc => (.done (-rc) : Decision Int)) hrun
      simp only [hcalls] at hbind
      constructor
      · simp only [Prog.run_bind, hrun]
        rfl
      · exact congrArg (_ :: _ :: ·) hbind

-- ---------------------------------------------------------------------------
-- The walk
-- ---------------------------------------------------------------------------

def drawnIn (vs : List Visit) : List Nat := vs.flatMap Visit.drawn

theorem injectEach_cons_calls (err : ErrinjConf) (rest : List ErrinjConf) (rc : Int) (w : World β) :
    Decision.calls os (injectEach E path op (err :: rest) rc) w =
      if Triggers E path op err (w.draws 0) then
        .rand :: .triggered err.type op path ::
          Decision.calls os (act E op err rc >>= injectEach E path op rest) w.drawn
      else .rand :: Decision.calls os (injectEach E path op rest rc) w.drawn := by
  simp only [injectEach, randRange, Decision.calls, Prog.ask, Prog.call_bind, Prog.pure_eq,
    Prog.done_bind, Prog.trace_call, daemon, Triggers]
  by_cases hp : (w.draws 0 : Int) % (MAX_PROBABLITY - MIN_PROBABLITY + 1) + MIN_PROBABLITY ≤
      err.probability
  · by_cases hm : matches_ E err path op
    · simp only [hp, hm, not_true_eq_false, and_self, ↓reduceIte, Prog.trace_call, daemon,
        List.map_cons]
      rfl
    · simp only [hp, hm, not_true_eq_false, not_false_eq_true, and_false, Bool.false_eq_true,
        ↓reduceIte, List.map_cons]
      rfl
  · simp only [hp, not_false_eq_true, false_and, ↓reduceIte, List.map_cons]
    rfl

theorem getLast?_toList_append (o : Option Int) (l : List Int) (rc : Int) :
    (o.toList ++ l).getLast?.getD rc = l.getLast?.getD (o.getD rc) := by
  rw [List.getLast?_append]
  cases l.getLast? with
  | some c => rfl
  | none => cases o <;> rfl

variable (os E path op) in
/-- The walk calls what each entry asks for, and returns the last code that one
of them sets. -/
theorem injectEach_replays (errors : List ErrinjConf) (rc : Int) (w : World β) :
    (injectEach E path op errors rc).run (daemon os) w = some
        ((((visits E path op errors w.draws).filterMap (Visit.code? E path op)).getLast?).getD rc,
          w.skip (drawnIn (visits E path op errors w.draws)).length) ∧
      Decision.calls os (injectEach E path op errors rc) w =
        (visits E path op errors w.draws).flatMap (Visit.calls E path op · w.caller) := by
  induction errors generalizing rc w with
  | nil => exact ⟨rfl, rfl⟩
  | cons err rest ih =>
    obtain ⟨v, hv⟩ : ∃ v, v = visit E path op err w.draws := ⟨_, rfl⟩
    have hcode (vs : List Visit) : (v :: vs).filterMap (Visit.code? E path op) =
        (v.code? E path op).toList ++ vs.filterMap (Visit.code? E path op) := by
      rw [List.filterMap_cons]
      cases v.code? E path op <;> rfl
    have hdrawn : w.skip v.drawn.length = w.drawn.skip v.extra.toList.length := by
      unfold Visit.drawn
      rw [List.length_cons, Nat.add_comm, World.skip_add]
      rfl
    have hdraws : (fun n => w.draws (n + v.drawn.length)) =
        (w.drawn.skip v.extra.toList.length).draws := congrArg World.draws hdrawn
    rw [visits, ← hv, hdraws, hcode, getLast?_toList_append, drawnIn, List.flatMap_cons, List.flatMap_cons,
      List.length_append, World.skip_add, hdrawn, injectEach_cons_run, injectEach_cons_calls]
    obtain ⟨hrun, hcalls⟩ := ih ((v.code? E path op).getD rc) (w.skip v.drawn.length)
    rw [hdrawn] at hrun hcalls
    by_cases ht : Triggers E path op err (w.draws 0)
    · have hvt : v.Triggered E path op := hv ▸ ht
      obtain ⟨harun, hacalls⟩ := act_replays os hvt rc w.drawn (by
        rw [hv]
        simp only [visit, ht, true_and]
        rfl)
      have hve : v.entry = err := by rw [hv]; rfl
      rw [hve] at harun hacalls
      rw [if_pos ht, if_pos ht, harun, calls_bind harun, ← List.cons_append, ← List.cons_append,
        hacalls, hcalls]
      exact ⟨hrun, rfl⟩
    · have hvt : ¬v.Triggered E path op := hv ▸ ht
      have hx : v.extra = none := by
        rw [hv]
        exact if_neg fun h => ht h.1
      have hc : v.code? E path op = none := if_neg hvt
      have hcs : v.calls E path op w.caller = [.rand] := if_neg hvt
      rw [if_neg ht, if_neg ht, hcs]
      rw [hx, hc] at hrun hcalls
      rw [hx, hc]
      refine ⟨hrun, ?_⟩
      rw [List.singleton_append]
      exact congrArg _ hcalls

-- ---------------------------------------------------------------------------
-- The decision
-- ---------------------------------------------------------------------------

/-- A missing expression selects everything, one that does not compile nothing. -/
def Selects (E : Setup) (regex : Option CStr) (s : CStr) : Prop :=
  ∀ r, regex = some r → (E.regcomp r).1 = 0 ∧ (E.regcomp r).2 s = 0

theorem isRegexMatched_iff (regex : Option CStr) (s : CStr) :
    isRegexMatched E regex s = 0 ↔ Selects E regex s := by
  unfold isRegexMatched Selects
  cases regex with
  | none => simp
  | some r =>
    simp only [Option.some.injEq, forall_eq']
    by_cases h : (E.regcomp r).1 = 0
    · simp [h]
    · simp [h]

theorem triggers_iff (err : ErrinjConf) (r : Nat) : Triggers E path op err r ↔
    r % 101 ≤ err.probability ∧ Selects E err.pathRegexp path ∧
      Selects E err.opRegexp (fuseOpName op) := by
  unfold Triggers matches_
  rw [Bool.and_eq_true, decide_eq_true_eq, decide_eq_true_eq, isRegexMatched_iff, isRegexMatched_iff]
  refine and_congr_left fun _ => ?_
  unfold MAX_PROBABLITY MIN_PROBABLITY
  omega

def DaemonCall.isAct : DaemonCall → Bool
  | .kill .. | .nanosleep .. => true
  | _ => false

theorem visits_entry (errors : List ErrinjConf) (draws : Nat → Nat) :
    (visits E path op errors draws).map Visit.entry = errors := by
  induction errors generalizing draws with
  | nil => rfl
  | cons err rest ih => simp [visits, visit, ih]

theorem drawnIn_visits (errors : List ErrinjConf) (draws : Nat → Nat) :
    drawnIn (visits E path op errors draws) =
      (List.range (drawnIn (visits E path op errors draws)).length).map draws := by
  induction errors generalizing draws with
  | nil => rfl
  | cons err rest ih =>
    have hd (v : Visit) (hv : v = visit E path op err draws) :
        v.drawn = (List.range v.drawn.length).map draws := by
      rw [hv]
      unfold visit Visit.drawn
      split
      · rfl
      · rfl
    rw [visits, drawnIn, List.flatMap_cons, List.length_append, List.range_add, List.map_append,
      List.map_map]
    refine congrArg₂ _ (hd _ rfl) ((ih _).trans ?_)
    refine List.map_congr_left fun n _ => ?_
    exact congrArg draws (Nat.add_comm ..)

theorem acts_calls (v : Visit) (caller : Option Int) :
    (v.calls E path op caller).filter DaemonCall.isAct = v.acts E path op caller := by
  unfold Visit.calls Visit.acts
  by_cases hv : v.Triggered E path op
  · rw [if_pos hv, if_pos hv]
    cases v.entry.type with
    | noop => rfl
    | slowdown => rfl
    | killCaller => cases caller <;> rfl
    | errno => cases v.extra <;> rfl
  · rw [if_neg hv, if_neg hv]
    rfl

variable (os op) in
theorem errorInject_replays (hp : path ≠ E.configPath) {w : World β} {errors : List ErrinjConf}
    (hw : w.errors = some errors) :
    (errorInject E path op).run (daemon os) w = some
        ((((visits E path op errors w.draws).filterMap (Visit.code? E path op)).getLast?).getD 0,
          w.skip (drawnIn (visits E path op errors w.draws)).length) ∧
      Decision.calls os (errorInject E path op) w = [.lock, .errors] ++
        (visits E path op errors w.draws).flatMap (Visit.calls E path op · w.caller) ++
          [.unlock] := by
  obtain ⟨hrun, hcalls⟩ := injectEach_replays os E path op errors 0 w
  have hbind := calls_bind (f := fun rc => Prog.call (S := daemonSig) .unlock fun _ => pure rc) hrun
  unfold errorInject
  simp only [hp, ↓reduceIte, Prog.ask, Prog.call_bind, Prog.done_bind, Prog.run_call, daemon, hw,
    Prog.run_bind, hrun]
  refine ⟨rfl, ?_⟩
  rw [hcalls] at hbind
  simp only [Decision.calls, Prog.trace_call, List.map_cons, daemon, hw] at hbind ⊢
  rw [hbind]
  rfl

variable (os op) in
theorem errorInject_acts (hp : path ≠ E.configPath) {w : World β} {errors : List ErrinjConf}
    (hw : w.errors = some errors) :
    (Decision.calls os (errorInject E path op) w).filter DaemonCall.isAct =
      (visits E path op errors w.draws).flatMap (Visit.acts E path op · w.caller) := by
  rw [(errorInject_replays os op hp hw).2, List.filter_append, List.filter_append,
    List.filter_flatMap]
  simp only [acts_calls]
  exact List.append_nil _

structure Replayed (os : OS β) (E : Setup) (path : CStr) (op : FuseOp) (errors : List ErrinjConf)
    (w : World β) : Prop where
  once : (visits E path op errors w.draws).map Visit.entry = errors
  inOrder : drawnIn (visits E path op errors w.draws) =
    (List.range (drawnIn (visits E path op errors w.draws)).length).map w.draws
  triggered : ∀ v ∈ visits E path op errors w.draws, v.Triggered E path op ↔
    v.draw % 101 ≤ v.entry.probability ∧ Selects E v.entry.pathRegexp path ∧
      Selects E v.entry.opRegexp (fuseOpName op)
  extra : ∀ v ∈ visits E path op errors w.draws,
    v.extra.isSome ↔ v.Triggered E path op ∧ v.entry.type = .errno
  calls : Decision.calls os (errorInject E path op) w = [.lock, .errors] ++
    (visits E path op errors w.draws).flatMap (Visit.calls E path op · w.caller) ++ [.unlock]
  acts : (Decision.calls os (errorInject E path op) w).filter DaemonCall.isAct =
    (visits E path op errors w.draws).flatMap (Visit.acts E path op · w.caller)
  code : w.decision os E path op =
    (((visits E path op errors w.draws).filterMap (Visit.code? E path op)).getLast?).getD 0
  after : w.decided os E path op = w.skip (drawnIn (visits E path op errors w.draws)).length

theorem visits_extra {errors : List ErrinjConf} {draws : Nat → Nat} {v : Visit}
    (hm : v ∈ visits E path op errors draws) : v.extra.isSome ↔
      v.Triggered E path op ∧ v.entry.type = .errno ∧ (E.build.errnoTable op).isSome := by
  induction errors generalizing draws with
  | nil => cases hm
  | cons err rest ih =>
    obtain rfl | hm := List.mem_cons.mp hm
    · unfold Visit.Triggered visit
      dsimp only
      split
      · rename_i h
        simp [h]
      · rename_i h
        simp [h]
    · exact ih hm

theorem Linux.errnoTable_isSome (op : FuseOp) : (Linux.errnoTable op).isSome := by
  cases op <;> rfl

theorem decision_replays (os : OS β) (past : FuseOp → Int) (regcomp : Regcomp)
    (configPath path : CStr) (op : FuseOp) (w : World β) (errors : List ErrinjConf)
    (hp : path ≠ configPath) (hw : w.errors = some errors) :
    Replayed os ⟨Linux.build past, regcomp, configPath⟩ path op errors w := by
  obtain ⟨hrun, hcalls⟩ : _ ∧ _ :=
    errorInject_replays (E := ⟨Linux.build past, regcomp, configPath⟩) os op hp hw
  constructor
  case once => exact visits_entry errors w.draws
  case inOrder => exact drawnIn_visits errors w.draws
  case triggered => exact fun v _ => triggers_iff v.entry v.draw
  case extra =>
    intro v hm
    have ht : ((Linux.build past).errnoTable op).isSome := Linux.errnoTable_isSome op
    rw [visits_extra hm]
    simp [ht]
  case calls => exact hcalls
  case acts => exact errorInject_acts os op hp hw
  case code =>
    unfold World.decision
    rw [hrun]
    rfl
  case after =>
    unfold World.decided
    rw [hrun]
    rfl

theorem decision_replays_two :
    Replayed (Posix.posix .small) (Posix.smallSetup (ascii "/c")) (ascii "/d") .mkdir
      [{ type := .errno, probability := 100 }, { type := .noop, probability := 100 }]
      (Posix.bootWorld .root
        (some [{ type := .errno, probability := 100 }, { type := .noop, probability := 100 }])) :=
  decision_replays _ (fun _ => 0) _ (ascii "/c") _ _ _ _ (by decide) rfl

-- ---------------------------------------------------------------------------
-- The errno tables
-- ---------------------------------------------------------------------------

/-- An entry that has read one of the names in a table, and so stores a negative
errno. -/
def Visit.FromTable (E : Setup) (path : CStr) (op : FuseOp) (arr : List ErrnoName) (v : Visit) :
    Prop :=
  ∃ r, v.extra = some r ∧ r % (arr.length + 1) < arr.length ∧
    (∃ e ∈ arr, errnoPicked E op r = E.build.code e) ∧ 0 < errnoPicked E op r ∧
      ∃ c, v.code? E path op = some c ∧ c = -errnoPicked E op r ∧ c < 0 ∧ c ≠ -ERRNO_NOOP

theorem errnoPicked_mem {arr : List ErrnoName} (ht : E.build.errnoTable op = some arr) {r : Nat}
    (hr : r % (arr.length + 1) < arr.length) : ∃ e ∈ arr, errnoPicked E op r = E.build.code e := by
  refine ⟨arr[r % (arr.length + 1)], List.getElem_mem hr, ?_⟩
  unfold errnoPicked
  simp [ht, hr]

theorem fromTable_iff {arr : List ErrnoName} (ht : E.build.errnoTable op = some arr)
    (hpos : ∀ e ∈ arr, 0 < E.build.code e) {errors : List ErrinjConf} {draws : Nat → Nat} {v : Visit}
    (hm : v ∈ visits E path op errors draws) (hv : v.Triggered E path op)
    (he : v.entry.type = .errno) : v.FromTable E path op arr ↔
      ∀ r, v.extra = some r → r % (arr.length + 1) ≠ arr.length := by
  have hx : v.extra.isSome := (visits_extra hm).mpr ⟨hv, he, by simp [ht]⟩
  obtain ⟨r, hr⟩ := Option.isSome_iff_exists.mp hx
  constructor
  · rintro ⟨r', hr', hlt, -⟩ q hq
    cases hr'.symm.trans hq
    exact Nat.ne_of_lt hlt
  · intro h
    have hlt : r % (arr.length + 1) < arr.length :=
      Nat.lt_of_le_of_ne (Nat.le_of_lt_succ (Nat.mod_lt _ (Nat.succ_pos _))) (h r hr)
    obtain ⟨e, hmem, hpick⟩ := errnoPicked_mem ht hlt
    have hp := hpos e hmem
    have hc : v.code? E path op = some (-errnoPicked E op r) := by
      simp [Visit.code?, hv, he, hr]
    refine ⟨r, hr, hlt, ⟨e, hmem, hpick⟩, by omega, _, hc, rfl, by omega, ?_⟩
    unfold ERRNO_NOOP
    omega

/-- Every triggered errno entry picks from the table of its operation exactly as
long as no number picks the element behind it. -/
theorem errno_from_table_iff (os : OS β) (E : Setup) (path : CStr) (op : FuseOp) (w : World β)
    (errors : List ErrinjConf) (arr : List ErrnoName) (hp : path ≠ E.configPath)
    (hw : w.errors = some errors) (ht : E.build.errnoTable op = some arr)
    (hpos : ∀ e ∈ arr, 0 < E.build.code e) :
    w.decision os E path op =
        (((visits E path op errors w.draws).filterMap (Visit.code? E path op)).getLast?).getD 0 ∧
      ((∀ v ∈ visits E path op errors w.draws, v.Triggered E path op → v.entry.type = .errno →
          v.FromTable E path op arr) ↔
        ∀ v ∈ visits E path op errors w.draws, ∀ r, v.extra = some r →
          r % (arr.length + 1) ≠ arr.length) := by
  constructor
  · unfold World.decision
    rw [(errorInject_replays os op hp hw).1]
    rfl
  · constructor
    · intro h v hm r hr
      obtain ⟨hv, he, -⟩ := (visits_extra hm).mp (by simp [hr])
      exact (fromTable_iff ht hpos hm hv he).mp (h v hm hv he) r hr
    · intro h v hm hv he
      exact (fromTable_iff ht hpos hm hv he).mpr (h v hm)

theorem Linux.code_pos (op : FuseOp) {arr : List ErrnoName} (ht : Linux.errnoTable op = some arr) :
    ∀ e ∈ arr, 0 < Linux.code e := by
  cases op <;> cases ht <;> decide

def errnoEntry : ErrinjConf := { type := .errno, probability := 100 }

theorem errno_from_table_mkdir : (Visit.mk errnoEntry 0 (some 0)).FromTable
    (Posix.smallSetup (ascii "/c")) (ascii "/d") .mkdir Linux.errnoMkdir :=
  (errno_from_table_iff (Posix.posix .small) (Posix.smallSetup (ascii "/c")) (ascii "/d") .mkdir
    (Posix.bootWorld .root (some [errnoEntry])) [errnoEntry] Linux.errnoMkdir (by decide) rfl rfl
    (Linux.code_pos .mkdir rfl)).2.mpr (by decide) _ List.mem_cons_self (by decide) rfl

/-- The table of `mkdir` has 14 elements; the number 14 picks what lies behind them, and
with a 0 there the directory is made. -/
theorem errno_past_mkdir :
    let draws : Nat → Nat := fun n => if n = 1 then 14 else 0
    (∃ v ∈ visits (Posix.smallSetup (ascii "/c")) (ascii "/d") .mkdir [errnoEntry] draws,
      v.Triggered (Posix.smallSetup (ascii "/c")) (ascii "/d") .mkdir ∧ v.entry.type = .errno ∧
        ¬v.FromTable (Posix.smallSetup (ascii "/c")) (ascii "/d") .mkdir Linux.errnoMkdir) ∧
    ((Posix.bootWorld .root (some [errnoEntry])).withDraws draws).decision (Posix.posix .small)
      (Posix.smallSetup (ascii "/c")) (ascii "/d") .mkdir = 0 := by
  refine ⟨⟨⟨errnoEntry, 0, some 14⟩, List.mem_cons_self, by decide, rfl, ?_⟩, by decide⟩
  rintro ⟨r, hr, hlt, -⟩
  cases hr
  exact absurd hlt (by decide)

end UnreliableFS
