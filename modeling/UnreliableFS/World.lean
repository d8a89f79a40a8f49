import UnreliableFS.Table

/-!
# The daemon in its world

An `OS` answers the calls of the daemon from a state `β` of the base file
system and of the daemon's own process. A `World` adds what the daemon keeps in
memory and what it draws from: the list of faults in force, the random numbers
still to come and the process the request came from. The daemon has memory and
descriptors enough to read its configuration. Printing is not modelled, except
for the line that says that an entry has triggered.
-/

namespace UnreliableFS

open Interaction

structure OS (β : Type) where
  kernel : Handler sysSig β
  /-- `access(path, F_OK)`. -/
  access : β → CStr → Int
  /-- All of a file, which is opened, read and closed; `none` when `fopen` fails. -/
  slurp : β → CStr → Option (List UInt8)
  /-- What that leaves. -/
  slurped : β → CStr → β

structure World (β : Type) where
  base : β
  errors : Option (List ErrinjConf)
  draws : Nat → Nat
  /-- The pid in `fuse_get_context()`. -/
  caller : Option Int

def World.withDraws (w : World β) (draws : Nat → Nat) : World β := { w with draws }

section
variable {β : Type}

def errinjList (bytes : List UInt8) : List ErrinjConf :=
  (Conf.iniOptions bytes).foldl (Conf.deliver confOptionHandler) []

/-- What `config_init` makes of the file at a path. -/
def OS.loaded (os : OS β) (b : β) (path : CStr) : Option (List ErrinjConf) :=
  if os.access b path = 0 then (os.slurp b path).map errinjList else some []

def OS.afterLoad (os : OS β) (b : β) (path : CStr) : β :=
  if os.access b path = 0 then os.slurped b path else b

/-- The base as the body of an operation finds it. -/
def OS.atBody (os : OS β) (E : Setup) (b : β) (path : CStr) : β :=
  if path = E.configPath then os.afterLoad b path else b

theorem OS.atBody_config (os : OS β) (E : Setup) (b : β) :
    os.atBody E b E.configPath = os.afterLoad b E.configPath := if_pos rfl

theorem OS.atBody_keeps (os : OS β) (E : Setup) (R : β → β → Prop) (hrefl : ∀ b, R b b)
    (hslurped : ∀ b path, R b (os.slurped b path)) (b : β) (path : CStr) :
    R b (os.atBody E b path) := by
  unfold OS.atBody OS.afterLoad
  split
  · split
    · exact hslurped b path
    · exact hrefl b
  · exact hrefl b

theorem OS.atBody_other (os : OS β) {E : Setup} {path : CStr} (hp : path ≠ E.configPath) (b : β) :
    os.atBody E b path = b := if_neg hp

def daemon (os : OS β) : Handler daemonSig (World β)
  | .lock, w => ((), w)
  | .unlock, w => ((), w)
  | .errors, w => (w.errors, w)
  | .setErrors errors, w => ((), { w with errors })
  | .rand, w => (w.draws 0, { w with draws := fun i => w.draws (i + 1) })
  | .triggered .., w => ((), w)
  | .getContext, w => (w.caller, w)
  | .kill .., w => ((0 : Int), w)
  | .nanosleep .., w => ((0 : Int), w)
  | .access path, w => (os.access w.base path, w)
  | .slurp path, w => (os.slurp w.base path, { w with base := os.slurped w.base path })

def World.basePart : Part (World β) β where
  get := World.base
  put := fun b w => { w with base := b }
  get_put := fun _ _ => rfl
  put_get := fun _ => rfl
  put_put := fun _ _ _ => rfl

def OS.handler (os : OS β) : Handler fullSig (World β) :=
  (daemon os).sum (os.kernel.focus World.basePart)

end

-- ---------------------------------------------------------------------------
-- What the decision does
-- ---------------------------------------------------------------------------

variable {β : Type} {os : OS β} {E : Setup}

theorem configInit_run (path : CStr) (w : World β) : (configInit path).run (daemon os) w =
    some (os.loaded w.base path, { w with base := os.afterLoad w.base path }) := by
  have hload (file : Option (List UInt8)) :
      (if (Conf.iniParse confOptionHandler file []).1 < 0 then none
        else some (Conf.iniParse confOptionHandler file []).2) = file.map errinjList := by
    cases file with
    | none => rfl
    | some bytes =>
      rw [if_neg (Int.not_lt.mpr (Conf.iniParse_nonneg bytes [])), Conf.iniParse_user]
      rfl
  unfold configInit OS.loaded OS.afterLoad
  simp only [Prog.ask, Prog.call_bind, Prog.done_bind, Prog.run_call]
  by_cases h : os.access w.base path = 0
  · have hf : (daemon os (.access path) w).1 = (0 : Int) := h
    rw [if_pos h, if_pos h, if_pos hf, ← hload]
    by_cases hn : (Conf.iniParse confOptionHandler (os.slurp w.base path) []).1 < 0
    · rw [if_pos hn]
      exact congrArg (Prog.run (daemon os) · _) (if_pos hn)
    · rw [if_neg hn]
      exact congrArg (Prog.run (daemon os) · _) (if_neg hn)
  · have hf : ¬(daemon os (.access path) w).1 = (0 : Int) := h
    rw [if_neg h, if_neg h, if_neg hf]
    rfl

variable (os E) in
theorem opRandomErrno_run (op : FuseOp) (draws : Nat → Nat) : ∃ rc draws', ∀ w : World β,
    w.draws = draws → (opRandomErrno E op).run (daemon os) w = some (rc, w.withDraws draws') := by
  unfold opRandomErrno
  cases E.build.errnoTable op with
  | none =>
    refine ⟨-1, draws, ?_⟩
    rintro w rfl
    rfl
  | some arr =>
    refine ⟨(arr.map fun e => (E.build.code e : Int)).getD
      ((draws 0 : Int) % ((arr.length : Int) - 0 + 1) + 0).toNat (E.build.past op),
      fun i => draws (i + 1), ?_⟩
    rintro w rfl
    rfl

variable (os E) in
theorem act_run (op : FuseOp) (err : ErrinjConf) (rc : Int) (draws : Nat → Nat) :
    ∃ rc' draws', ∀ w : World β, w.draws = draws →
      (act E op err rc).run (daemon os) w = some (rc', w.withDraws draws') := by
  unfold act
  cases err.type with
  | noop =>
    refine ⟨-ERRNO_NOOP, draws, ?_⟩
    rintro w rfl
    rfl
  | killCaller =>
    refine ⟨rc, draws, ?_⟩
    rintro w rfl
    simp only [Prog.ask, Prog.call_bind, Prog.done_bind, Prog.run_call, daemon]
    cases w.caller <;> rfl
  | errno =>
    obtain ⟨rc', draws', h⟩ := opRandomErrno_run os E op draws
    refine ⟨-rc', draws', fun w hw => ?_⟩
    simp only [Prog.run_bind, h w hw]
    rfl
  | slowdown =>
    refine ⟨rc, draws, ?_⟩
    rintro w rfl
    rfl

def World.drawn (w : World β) : World β := w.withDraws fun i => w.draws (i + 1)

/-- Whether an entry triggers on a random number. -/
def Triggers (E : Setup) (path : CStr) (op : FuseOp) (err : ErrinjConf) (r : Nat) : Prop :=
  (r : Int) % (MAX_PROBABLITY - MIN_PROBABLITY + 1) + MIN_PROBABLITY ≤ err.probability ∧
    matches_ E err path op = true

instance {path : CStr} {op : FuseOp} {err : ErrinjConf} {r : Nat} :
    Decidable (Triggers E path op err r) :=
  inferInstanceAs (Decidable (_ ∧ _))

theorem injectEach_cons_run (path : CStr) (op : FuseOp) (err : ErrinjConf) (rest : List ErrinjConf)
    (rc : Int) (w : World β) : (injectEach E path op (err :: rest) rc).run (daemon os) w =
      if Triggers E path op err (w.draws 0) then
        ((act E op err rc).run (daemon os) w.drawn).bind fun r =>
          (injectEach E path op rest r.1).run (daemon os) r.2
      else (injectEach E path op rest rc).run (daemon os) w.drawn := by
  simp only [injectEach, randRange, Prog.ask, Prog.call_bind, Prog.pure_eq, Prog.done_bind,
    Prog.run_call, daemon, Triggers]
  by_cases hp : (w.draws 0 : Int) % (MAX_PROBABLITY - MIN_PROBABLITY + 1) + MIN_PROBABLITY ≤
      err.probability
  · by_cases hm : matches_ E err path op
    · simp only [hp, hm, not_true_eq_false, and_self, ↓reduceIte, Prog.run_call, daemon,
        Prog.run_bind]
      rfl
    · simp only [hp, hm, not_true_eq_false, not_false_eq_true, and_false, Bool.false_eq_true,
        ↓reduceIte]
      rfl
  · simp only [hp, not_false_eq_true, false_and, ↓reduceIte]
    rfl

variable (os E) in
theorem injectEach_run (path : CStr) (op : FuseOp) (errors : List ErrinjConf) (rc : Int)
    (draws : Nat → Nat) : ∃ rc' draws', ∀ w : World β, w.draws = draws →
      (injectEach E path op errors rc).run (daemon os) w = some (rc', w.withDraws draws') := by
  induction errors generalizing rc draws with
  | nil =>
    refine ⟨rc, draws, ?_⟩
    rintro w rfl
    rfl
  | cons err rest ih =>
    obtain ⟨rc₁, draws₁, h₁⟩ := ih rc fun i => draws (i + 1)
    obtain ⟨rc₂, draws₂, h₂⟩ := act_run os E op err rc fun i => draws (i + 1)
    obtain ⟨rc₃, draws₃, h₃⟩ := ih rc₂ draws₂
    by_cases ht : Triggers E path op err (draws 0)
    · refine ⟨rc₃, draws₃, ?_⟩
      rintro w rfl
      rw [injectEach_cons_run, if_pos ht, h₂ _ rfl]
      exact h₃ _ rfl
    · refine ⟨rc₁, draws₁, ?_⟩
      rintro w rfl
      rw [injectEach_cons_run, if_neg ht]
      exact h₁ _ rfl

theorem errorInject_run_config (op : FuseOp) (w : World β) :
    (errorInject E E.configPath op).run (daemon os) w =
      some (0, { w with
        errors := os.loaded w.base E.configPath
        base := os.afterLoad w.base E.configPath }) := by
  unfold errorInject
  simp only [↓reduceIte, Prog.ask, Prog.call_bind, Prog.done_bind, Prog.run_call, daemon, Prog.run_bind,
    configInit_run]
  rfl

variable (os) in
/-- On any other path the decision depends on the list in force and on the random
numbers to come, and changes nothing but these. -/
theorem errorInject_run_other {path : CStr} (hp : path ≠ E.configPath) (op : FuseOp)
    (errors : Option (List ErrinjConf)) (draws : Nat → Nat) : ∃ rc draws', ∀ w : World β,
      w.errors = errors → w.draws = draws →
      (errorInject E path op).run (daemon os) w = some (rc, w.withDraws draws') := by
  unfold errorInject
  simp only [hp, ↓reduceIte, Prog.ask, Prog.call_bind, Prog.done_bind, Prog.run_call, daemon]
  cases errors with
  | none =>
    refine ⟨0, draws, fun w he hd => ?_⟩
    subst hd
    simp only [he]
    rfl
  | some errors =>
    obtain ⟨rc, draws', h⟩ := injectEach_run os E path op errors 0 draws
    refine ⟨rc, draws', fun w he hd => ?_⟩
    simp only [he, Prog.run_bind, h w hd]
    rfl

/-- The code `error_inject` returns. -/
def World.decision (os : OS β) (E : Setup) (w : World β) (path : CStr) (op : FuseOp) : Int :=
  ((errorInject E path op).run (daemon os) w).elim 0 (·.1)

def World.decided (os : OS β) (E : Setup) (w : World β) (path : CStr) (op : FuseOp) : World β :=
  ((errorInject E path op).run (daemon os) w).elim w (·.2)

theorem errorInject_run (w : World β) (path : CStr) (op : FuseOp) :
    (errorInject E path op).run (daemon os) w =
      some (w.decision os E path op, w.decided os E path op) := by
  unfold World.decision World.decided
  by_cases hp : path = E.configPath
  · subst hp
    rw [errorInject_run_config]
    rfl
  · obtain ⟨rc, draws', h⟩ := errorInject_run_other os hp op w.errors w.draws
    rw [h w rfl rfl]
    rfl

@[simp] theorem decision_config (w : World β) (op : FuseOp) :
    w.decision os E E.configPath op = 0 := by
  simp [World.decision, errorInject_run_config]

theorem decided_config (w : World β) (op : FuseOp) : w.decided os E E.configPath op = { w with
    errors := os.loaded w.base E.configPath
    base := os.afterLoad w.base E.configPath } := by
  simp [World.decided, errorInject_run_config]

variable (os) in
theorem decided_other {path : CStr} (hp : path ≠ E.configPath) (w : World β) (op : FuseOp) :
    ∃ draws', w.decided os E path op = w.withDraws draws' := by
  obtain ⟨rc, draws', h⟩ := errorInject_run_other os hp op w.errors w.draws
  exact ⟨draws', by simp [World.decided, h w rfl rfl]⟩

theorem decision_congr {path : CStr} (hp : path ≠ E.configPath) {w w' : World β}
    (he : w.errors = w'.errors) (hd : w.draws = w'.draws) (op : FuseOp) :
    w.decision os E path op = w'.decision os E path op := by
  obtain ⟨rc, draws', h⟩ := errorInject_run_other os hp op w.errors w.draws
  simp [World.decision, h w rfl rfl, h w' he.symm hd.symm]

theorem decision_of_none {w : World β} (he : w.errors = none) (path : CStr) (op : FuseOp) :
    w.decision os E path op = 0 := by
  by_cases hp : path = E.configPath
  · rw [hp, decision_config]
  · simp [World.decision, errorInject, hp, Prog.ask, daemon, he]

@[simp] theorem decided_base (w : World β) (path : CStr) (op : FuseOp) :
    (w.decided os E path op).base = os.atBody E w.base path := by
  by_cases hp : path = E.configPath
  · rw [hp, decided_config, OS.atBody_config]
  · obtain ⟨draws', h⟩ := decided_other os hp w op
    rw [h, OS.atBody_other os hp]
    rfl

theorem atBody_of_decision {w : World β} {path : CStr} {op : FuseOp}
    (h : w.decision os E path op ≠ 0) : os.atBody E w.base path = w.base := by
  refine OS.atBody_other os ?_ w.base
  rintro rfl
  exact h (decision_config w op)

@[simp] theorem decided_caller (w : World β) (path : CStr) (op : FuseOp) :
    (w.decided os E path op).caller = w.caller := by
  by_cases hp : path = E.configPath
  · rw [hp, decided_config]
  · obtain ⟨draws', h⟩ := decided_other os hp w op
    rw [h]
    rfl

-- ---------------------------------------------------------------------------
-- What an operation does
-- ---------------------------------------------------------------------------

theorem errorInject_inl_run (w : World β) (path : CStr) (op : FuseOp) :
    ((errorInject E path op).inl : Prog fullSig Int).run os.handler w =
      some (w.decision os E path op, w.decided os E path op) := by
  rw [OS.handler, Prog.run_inl, errorInject_run]

/-- An operation is its decision, and then either the reply the code stands for
or its body. -/
theorem Operation.call_run (o : Operation) (l : Local) (w : World β) :
    (o.call E l).run os.handler w =
      if w.decision os E o.path o.op = -ERRNO_NOOP then
        some ((0, l), w.decided os E o.path o.op)
      else if w.decision os E o.path o.op ≠ 0 then
        some ((w.decision os E o.path o.op, l), w.decided os E o.path o.op)
      else ((o.body l).run os.kernel (os.atBody E w.base o.path)).map fun r =>
        (r.1, { w.decided os E o.path o.op with base := r.2 }) := by
  unfold Operation.call
  simp only [Prog.run_bind, errorInject_inl_run, Option.bind_some]
  split
  · rfl
  · split
    · rfl
    · rw [OS.handler, Prog.run_inr, Prog.run_focus]
      simp only [World.basePart, decided_base]

def Operation.sysTrace (os : OS β) (E : Setup) (o : Operation) (l : Local) (w : World β) :
    List (Event sysSig β) :=
  (((o.call E l).trace os.handler w).filterMap Event.right?).map (Event.onPart World.basePart)

theorem Operation.sysTrace_eq (o : Operation) (l : Local) (w : World β) :
    o.sysTrace os E l w =
      if w.decision os E o.path o.op = 0 then (o.body l).trace os.kernel (os.atBody E w.base o.path)
      else [] := by
  unfold Operation.sysTrace Operation.call
  rw [Prog.trace_bind _ _ _ (errorInject_inl_run w o.path o.op), List.filterMap_append]
  rw [OS.handler, Prog.right_trace_inl, List.nil_append]
  by_cases h₀ : w.decision os E o.path o.op = 0
  · simp only [h₀, ERRNO_NOOP, Int.reduceNeg, Int.reduceEq, ↓reduceIte, ne_eq, not_true_eq_false]
    rw [Prog.right_trace_inr, Prog.trace_focus]
    simp only [World.basePart, decided_base]
  · rw [if_neg h₀]
    split
    · rfl
    · rfl

end UnreliableFS
