import UnreliableFS.Interaction.Simulation
import UnreliableFS.Memory.Triple
import UnreliableFS.Options
import UnreliableFS.World

/-!
# The list of faults in memory

`config_init`, `conf_option_handler` and `config_delete` at the level of the heap:
the head of the queue, the entries and the strings of their expressions are blocks
that are allocated and freed one by one, and every allocation may fail. A queue is
its head with the addresses of its entries in order, as the macros of `sys/queue.h`
keep it.
-/

namespace UnreliableFS.InMemory

open Interaction Memory Assertion

structure EntryCell where
  type : ErrinjType
  opRegexp : Option Addr := none
  pathRegexp : Option Addr := none
  probability : Nat := 0
  duration : Nat := 0

inductive Cell
  | queue (entries : List Addr)
  | entry (err : EntryCell)
  | str (s : CStr)

def loadQueue (a : Addr) : Mem Cell (List Addr) := do
  match ← load a with
  | .queue entries => return entries
  | _ => undefined

def loadEntry (a : Addr) : Mem Cell EntryCell := do
  match ← load a with
  | .entry err => return err
  | _ => undefined

def loadStr (a : Addr) : Mem Cell CStr := do
  match ← load a with
  | .str s => return s
  | _ => undefined

-- ---------------------------------------------------------------------------
-- The functions
-- ---------------------------------------------------------------------------

/-- The `TAILQ_FOREACH` of the handler. -/
def findEntry (t : ErrinjType) : List Addr → Mem Cell (Option Addr)
  | [] => return none
  | np :: rest => do
    let e ← loadEntry np
    if e.type = t then return some np
    findEntry t rest

def freeStr : Option Addr → Mem Cell Unit
  | none => return ()
  | some s => free s

def strdup (s : CStr) : Mem Cell (Option Addr) := alloc (.str s)

def storeOption (err : Addr) (key value : CStr) : Mem Cell Int := do
  let e ← loadEntry err
  if key = ascii "path_regexp" then
    freeStr e.pathRegexp
    let s ← strdup value
    store err (.entry { e with pathRegexp := s })
    return 1
  else if key = ascii "op_regexp" then
    freeStr e.opRegexp
    let s ← strdup value
    store err (.entry { e with opRegexp := s })
    return 1
  else if key = ascii "probability" then
    store err (.entry { e with probability := toUnsigned (atoi value) })
    return 1
  else if key = ascii "duration" then
    store err (.entry { e with duration := toUnsigned (atoi value) })
    return 1
  else return 0

def newEntry (cfg : Addr) (t : ErrinjType) : Mem Cell (Option Addr) := do
  let err ← alloc (.entry { type := t })
  match err with
  | none => return none
  | some a => do
    let entries ← loadQueue cfg
    store cfg (.queue (entries ++ [a]))
    return some a

def confOptionHandler (cfg : Addr) (section_ key value : CStr) : Mem Cell Int :=
  match errinjTypeByName section_ with
  | none => return -1
  | some curType => do
    let entries ← loadQueue cfg
    let found ← findEntry curType entries
    let err ← match found with
      | some err => pure (some err)
      | none => newEntry cfg curType
    match err with
    | none => return -1
    | some err => storeOption err key value

/-- The handler as the parser calls it: undefined behaviour stays. -/
def handler (cfg : Addr) : Conf.Handler (Option (Store Cell)) := fun μ section_ key value =>
  match μ.bind (confOptionHandler cfg section_ key value) with
  | none => (0, none)
  | some (rc, μ) => (rc, some μ)

def iniParse (cfg : Addr) (file : Option (List UInt8)) : Mem Cell Int := fun μ =>
  match Conf.iniParse (handler cfg) file (some μ) with
  | (_, none) => none
  | (rc, some μ) => some (rc, μ)

/-- `config_init` for a path with a file or not, which opens or not. -/
def configInit (found : Bool) (file : Option (List UInt8)) : Mem Cell (Option Addr) := do
  let errors ← alloc (.queue [])
  match errors with
  | none => return none
  | some q => do
    if found then
      let rc ← iniParse q file
      if rc < 0 then return none
      return some q
    return some q

/-- The loop of `config_delete`, in at most so many rounds. -/
def deleteEntries (errors : Addr) : Nat → Mem Cell Unit
  | 0 => undefined
  | n + 1 => do
    let entries ← loadQueue errors
    match entries with
    | [] => return ()
    | err :: rest => do
      let e ← loadEntry err
      freeStr e.pathRegexp
      freeStr e.opRegexp
      store errors (.queue rest)
      free err
      deleteEntries errors n

def configDelete : Option Addr → Mem Cell Unit
  | none => return ()
  | some errors => do
    let entries ← loadQueue errors
    deleteEntries errors (entries.length + 1)
    free errors

def readStr : Option Addr → Mem Cell (Option CStr)
  | none => return none
  | some s => do return some (← loadStr s)

def readEntries : List Addr → Mem Cell (List ErrinjConf)
  | [] => return []
  | err :: rest => do
    let e ← loadEntry err
    let pathRegexp ← readStr e.pathRegexp
    let opRegexp ← readStr e.opRegexp
    let errors ← readEntries rest
    return ⟨e.type, opRegexp, pathRegexp, e.probability, e.duration⟩ :: errors

def readErrors : Option Addr → Mem Cell (Option (List ErrinjConf))
  | none => return none
  | some q => do return some (← readEntries (← loadQueue q))

-- ---------------------------------------------------------------------------
-- What lies in memory for a list
-- ---------------------------------------------------------------------------

def strAt : Option Addr → Option CStr → Assertion Cell
  | none, none => 1
  | some a, some s => block a (.str s)
  | _, _ => fact False

def EntryCell.of (err : ErrinjConf) (o p : Option Addr) : EntryCell :=
  ⟨err.type, o, p, err.probability, err.duration⟩

def entryAt (a : Addr) (err : ErrinjConf) : Assertion Cell := ex fun o : Option Addr =>
  ex fun p : Option Addr => block a (.entry (.of err o p)) *
    (strAt o err.opRegexp * strAt p err.pathRegexp)

def entriesAt : List Addr → List ErrinjConf → Assertion Cell
  | [], [] => 1
  | a :: as, err :: errors => entryAt a err * entriesAt as errors
  | _, _ => fact False

def queueAt (q : Addr) (errors : List ErrinjConf) : Assertion Cell := ex fun as : List Addr =>
  block q (.queue as) * entriesAt as errors

def errorsAt : Option Addr → Option (List ErrinjConf) → Assertion Cell
  | none, none => 1
  | some q, some errors => queueAt q errors
  | _, _ => fact False

theorem queueAt_intro {q : Addr} (as : List Addr) {errors : List ErrinjConf} {h : Heap Cell}
    (hq : (block q (Cell.queue as) * entriesAt as errors) h) : queueAt q errors h := ⟨as, hq⟩

theorem fact_false_mul (P : Assertion Cell) : fact False * P = fact False := by
  ext h
  simp [fact_mul, fact]

theorem entriesAt_concat (as : List Addr) (errors : List ErrinjConf) (a : Addr) (err : ErrinjConf) :
    entriesAt (as ++ [a]) (errors ++ [err]) = entriesAt as errors * entryAt a err := by
  induction as generalizing errors with
  | nil =>
    cases errors with
    | nil => simp [entriesAt]
    | cons e errors =>
      have he : entriesAt [] (errors ++ [err]) = fact False := by cases errors <;> rfl
      simp [entriesAt, he, fact_false_mul, mul_comm (entryAt a e)]
  | cons b as ih =>
    cases errors with
    | nil =>
      have he : entriesAt (as ++ [a]) [] = fact False := by cases as <;> rfl
      simp [entriesAt, he, fact_false_mul, mul_comm (entryAt b err)]
    | cons e errors => simp [entriesAt, ih, mul_assoc]

theorem entryAt_new (a : Addr) (t : ErrinjType) {h : Heap Cell}
    (hb : block a (.entry { type := t }) h) : entryAt a { type := t } h :=
  ⟨none, none, by simpa [strAt, EntryCell.of] using hb⟩

theorem entryAt_mul (a : Addr) (err : ErrinjConf) (R : Assertion Cell) :
    entryAt a err * R = ex fun o : Option Addr => ex fun p : Option Addr =>
      block a (.entry (.of err o p)) * (strAt o err.opRegexp * strAt p err.pathRegexp * R) := by
  simp only [entryAt, ex_mul, mul_assoc]

-- ---------------------------------------------------------------------------
-- Reads
-- ---------------------------------------------------------------------------

section
variable {plenty : Prop} {a : Addr}

theorem loadQueue_spec (as : List Addr) : Triple plenty (block a (.queue as)) (loadQueue a)
    fun r => fact (r = as) * block a (.queue as) :=
  Triple.load.step_returns 1 (mul_one _).symm
    (.pure as fun f hf => fact_mul.mpr ⟨rfl, by simpa using hf⟩)

theorem loadEntry_spec (e : EntryCell) : Triple plenty (block a (.entry e)) (loadEntry a)
    fun r => fact (r = e) * block a (.entry e) :=
  Triple.load.step_returns 1 (mul_one _).symm
    (.pure e fun f hf => fact_mul.mpr ⟨rfl, by simpa using hf⟩)

theorem loadStr_spec (s : CStr) : Triple plenty (block a (.str s)) (loadStr a)
    fun r => fact (r = s) * block a (.str s) :=
  Triple.load.step_returns 1 (mul_one _).symm
    (.pure s fun f hf => fact_mul.mpr ⟨rfl, by simpa using hf⟩)

theorem readStr_spec (p : Option Addr) (s : Option CStr) : Triple plenty (strAt p s) (readStr p)
    fun r => fact (r = s) * strAt p s := by
  cases p with
  | none =>
    cases s with
    | none => exact .pure none fun f hf => fact_mul.mpr ⟨rfl, hf⟩
    | some s => exact .of_false
  | some p =>
    cases s with
    | none => exact .of_false
    | some s =>
      exact (loadStr_spec s).step_returns 1 (mul_one _).symm
        (.pure (some s) fun f hf => fact_mul.mpr ⟨rfl, by simpa [strAt] using hf⟩)

-- ---------------------------------------------------------------------------
-- The handler
-- ---------------------------------------------------------------------------

theorem freeStr_spec (p : Option Addr) (s : Option CStr) :
    Triple plenty (strAt p s) (freeStr p) fun _ => 1 := by
  cases p with
  | none =>
    cases s with
    | none => exact .pure () fun f hf => hf
    | some s => exact .of_false
  | some p =>
    cases s with
    | none => exact .of_false
    | some s => exact .free

theorem strdup_spec (s : CStr) : Triple plenty 1 (strdup s) fun p =>
    ex fun m : Allocs => fact (plenty → m = {}) * strAt p (if m.strdup then some s else none) := by
  refine (Triple.alloc (Cell.str s)).conseq (fun _ h => h) fun p f hf => ?_
  cases p with
  | none => exact ⟨⟨true, false⟩, fact_mul.mpr ⟨fun hp => absurd hp hf.1, hf.2⟩⟩
  | some p => exact ⟨{}, fact_mul.mpr ⟨fun _ => rfl, hf⟩⟩

/-- The entry, if there is one, and how the queue is put together again after a change of it. -/
theorem findEntry_spec (t : ErrinjType) (as : List Addr) (errors : List ErrinjConf) :
    Triple plenty (entriesAt as errors) (findEntry t as) fun
      | none => fact (errors.any (·.type = t) = false) * entriesAt as errors
      | some a => ex fun err : ErrinjConf => ex fun R : Assertion Cell =>
        fact (errors.any (·.type = t) = true ∧
          (∀ f, entryAt a (f err) * R = entriesAt as (modifyEntry t f errors)) ∧
          ∀ f g, f err = g err → modifyEntry t f errors = modifyEntry t g errors) *
        (entryAt a err * R) := by
  induction as generalizing errors with
  | nil =>
    cases errors with
    | nil => exact .pure none fun f hf => fact_mul.mpr ⟨rfl, hf⟩
    | cons err errors => exact .of_false
  | cons b as ih =>
    cases errors with
    | nil => exact .of_false
    | cons err errors =>
      refine .of_eq (entryAt_mul b err _) (.of_ex fun o => .of_ex fun p => ?_)
      refine (loadEntry_spec _).step_returns _ rfl ?_
      by_cases ht : err.type = t
      · rw [if_pos (show (EntryCell.of err o p).type = t from ht)]
        refine .pure (some b) fun f hf => ?_
        refine ⟨err, entriesAt as errors, fact_mul.mpr ⟨⟨by simp [ht], fun g => ?_, fun g g' hg => ?_⟩, ?_⟩⟩
        · simp [modifyEntry, ht, entriesAt]
        · simp [modifyEntry, ht, hg]
        · rw [entryAt_mul]
          exact ⟨o, p, hf⟩
      · rw [if_neg (show ¬(EntryCell.of err o p).type = t from ht)]
        refine Triple.conseq ((ih errors).last (entryAt b err) (mul_comm _ _) fun r f hf => ?_)
          (fun f hf => by rw [entryAt_mul]; exact ⟨o, p, hf⟩) fun _ _ hf => hf
        cases r with
        | none =>
          rw [mul_assoc] at hf
          obtain ⟨hany, hf⟩ := fact_mul.mp hf
          exact fact_mul.mpr ⟨by simp [ht, hany], by rwa [entriesAt, mul_comm]⟩
        | some a =>
          simp only [ex_mul, mul_assoc] at hf
          obtain ⟨err', R, hf⟩ := hf
          obtain ⟨⟨hany, hmod, hsame⟩, hf⟩ := fact_mul.mp hf
          refine ⟨err', R * entryAt b err,
            fact_mul.mpr ⟨⟨by simp [hany], fun g => ?_, fun g g' hg => ?_⟩, hf⟩⟩
          · rw [modifyEntry, if_neg ht, entriesAt, ← hmod g]
            ac_rfl
          · simp [modifyEntry, ht, hsame g g' hg]

theorem replaceStr_spec (a : Addr) (e : EntryCell) (p : Option Addr) (s : Option CStr) (value : CStr)
    (set : Option Addr → EntryCell) (F : Assertion Cell) :
    Triple plenty (block a (.entry e) * (strAt p s * F))
      (do
        freeStr p
        let s ← strdup value
        store a (.entry (set s))
        return (1 : Int)) fun rc => ex fun p' : Option Addr => ex fun m : Allocs =>
      fact (rc = 1 ∧ (plenty → m = {})) *
        (block a (.entry (set p')) * (strAt p' (if m.strdup then some value else none) * F)) := by
  refine (freeStr_spec p s).step (block a (.entry e) * F) (by ac_rfl) fun _ => ?_
  refine (strdup_spec value).step (block a (.entry e) * F) rfl fun p' => ?_
  refine .of_eq ex_mul (.of_ex fun m => .of_eq (mul_assoc _ _ _) (.of_fact fun hm => ?_))
  refine Triple.store.step (strAt p' _ * F) (by ac_rfl) fun _ => ?_
  exact .pure 1 fun f hf => ⟨p', m, fact_mul.mpr ⟨⟨rfl, hm⟩, hf⟩⟩

def optionResult (m : Allocs) (key value : CStr) (err : ErrinjConf) : Int × ErrinjConf :=
  match setOptionIn m key value with
  | some set => (1, set err)
  | none => (0, err)

theorem storeOption_spec (a : Addr) (err : ErrinjConf) (key value : CStr) :
    Triple plenty (entryAt a err) (storeOption a key value) fun rc => ex fun err' : ErrinjConf =>
      fact (∃ m : Allocs, (plenty → m = {}) ∧
        ∀ b, (rc, err') = optionResult { m with calloc := b } key value err) * entryAt a err' := by
  refine Triple.of_ex fun o => .of_ex fun p => ?_
  refine (loadEntry_spec _).step_returns _ rfl ?_
  by_cases hpath : key = ascii "path_regexp"
  · subst hpath
    refine (replaceStr_spec a (.of err o p) p err.pathRegexp value (fun s => .of err o s)
      (strAt o err.opRegexp)).conseq (fun f hf => by rwa [mul_comm (strAt p _)]) fun rc f hf => ?_
    obtain ⟨p', m, hf⟩ := hf
    obtain ⟨⟨rfl, hm⟩, hcell⟩ := fact_mul.mp hf
    rw [mul_comm (strAt p' _)] at hcell
    exact ⟨{ err with pathRegexp := if m.strdup then some value else none },
      fact_mul.mpr ⟨⟨m, hm, fun _ => rfl⟩, o, p', hcell⟩⟩
  by_cases hop : key = ascii "op_regexp"
  · subst hop
    refine (replaceStr_spec a (.of err o p) o err.opRegexp value (fun s => .of err s p)
      (strAt p err.pathRegexp)).conseq (fun f hf => hf) fun rc f hf => ?_
    obtain ⟨o', m, hf⟩ := hf
    obtain ⟨⟨rfl, hm⟩, hcell⟩ := fact_mul.mp hf
    exact ⟨{ err with opRegexp := if m.strdup then some value else none },
      fact_mul.mpr ⟨⟨m, hm, fun _ => rfl⟩, o', p, hcell⟩⟩
  by_cases hprob : key = ascii "probability"
  · subst hprob
    refine Triple.store.step _ rfl fun _ => .pure 1 fun f hf => ?_
    exact ⟨{ err with probability := toUnsigned (atoi value) },
      fact_mul.mpr ⟨⟨{}, fun _ => rfl, fun _ => rfl⟩, o, p, hf⟩⟩
  by_cases hdur : key = ascii "duration"
  · subst hdur
    refine Triple.store.step _ rfl fun _ => .pure 1 fun f hf => ?_
    exact ⟨{ err with duration := toUnsigned (atoi value) },
      fact_mul.mpr ⟨⟨{}, fun _ => rfl, fun _ => rfl⟩, o, p, hf⟩⟩
  · rw [if_neg hpath, if_neg hop, if_neg hprob, if_neg hdur]
    refine .pure 0 fun f hf => ⟨err, fact_mul.mpr ⟨⟨{}, fun _ => rfl, fun b => ?_⟩, o, p, hf⟩⟩
    have hset : setOptionIn { calloc := b } key value = none := by
      simp [setOptionIn, hpath, hop, hprob, hdur]
    simp [optionResult, hset]

theorem newEntry_spec (q : Addr) (t : ErrinjType) (as : List Addr) (errors : List ErrinjConf) :
    Triple plenty (block q (.queue as) * entriesAt as errors) (newEntry q t) fun
      | none => fact (¬plenty) * (block q (.queue as) * entriesAt as errors)
      | some a => block q (.queue (as ++ [a])) * (entriesAt as errors * entryAt a { type := t }) := by
  refine (Triple.alloc (Cell.entry { type := t })).step _ (one_mul _).symm fun r => ?_
  cases r with
  | none => exact .pure none fun f hf => hf
  | some a =>
    refine (loadQueue_spec as).step_returns (block a (.entry { type := t }) * entriesAt as errors)
      (by ac_rfl) ?_
    refine Triple.store.step _ rfl fun _ => .pure (some a) fun f hf => ?_
    refine mul_mono (fun _ h => h) (fun g hg => ?_) hf
    rw [mul_comm]
    exact mul_mono (fun _ hb => entryAt_new a t hb) (fun _ h => h) hg

theorem confOptionHandler_spec (q : Addr) (errors : List ErrinjConf) (section_ key value : CStr) :
    Triple plenty (queueAt q errors) (confOptionHandler q section_ key value) fun rc =>
      ex fun errors' : List ErrinjConf => fact (∃ m : Allocs, (plenty → m = {}) ∧
          (rc, errors') = confOptionHandlerIn m errors section_ key value) *
        queueAt q errors' := by
  unfold confOptionHandler
  cases ht : errinjTypeByName section_ with
  | none =>
    have hr : confOptionHandlerIn {} errors section_ key value = (-1, errors) := by
      simp only [confOptionHandlerIn, ht]
    exact .pure (-1) fun f hf => ex_fact.mpr ⟨errors, ⟨{}, fun _ => rfl, hr.symm⟩, hf⟩
  | some t =>
    refine Triple.of_ex fun as => (loadQueue_spec as).step_returns _ rfl ?_
    refine (findEntry_spec t as errors).step (block q (.queue as)) (mul_comm _ _) fun found => ?_
    cases found with
    | some a =>
      refine .of_eq ex_mul (.of_ex fun err => .of_eq ex_mul (.of_ex fun R => ?_))
      refine .of_eq (mul_assoc _ _ _) (.of_fact fun hfound => ?_)
      simp only [pure_bind]
      refine (storeOption_spec a err key value).last (R * block q (.queue as)) (mul_assoc _ _ _)
        fun rc f hf => ?_
      obtain ⟨err', ⟨m, hm, hopt⟩, hf⟩ := ex_fact_mul.mp hf
      obtain ⟨hany, hmod, hsame⟩ := hfound
      refine ex_fact.mpr ⟨modifyEntry t (fun _ => err') errors, ⟨m, hm, ?_⟩, queueAt_intro as ?_⟩
      · have hthere : ∃ e ∈ errors, e.type = t := by simpa using hany
        have hopt := hopt m.calloc
        rw [confOptionHandlerIn_some ht (.inl hthere), withEntry, if_pos hany]
        unfold optionResult at hopt
        cases hset : setOptionIn m key value with
        | some set =>
          rw [hset] at hopt
          cases hopt
          simp only [hsame (fun _ => set err) set rfl]
        | none =>
          rw [hset] at hopt
          cases hopt
          simp only [hsame (fun _ => err) id rfl, modifyEntry_id]
      · rw [← hmod]
        rwa [← mul_assoc, mul_comm] at hf
    | none =>
      refine .of_eq (mul_assoc _ _ _) (.of_fact fun hany => ?_)
      have hb : ∀ e ∈ errors, e.type ≠ t := by simpa using hany
      refine (newEntry_spec q t as errors).step 1 (by rw [mul_one, mul_comm]) fun r => ?_
      rw [mul_one]
      cases r with
      | none =>
        have hr : confOptionHandlerIn { calloc := false } errors section_ key value = (-1, errors) := by
          simp [confOptionHandlerIn, ht, hany]
        exact .of_fact fun hn => .pure (-1) fun f hf =>
          ex_fact.mpr ⟨errors, ⟨{ calloc := false }, fun hp => absurd hp hn, hr.symm⟩, queueAt_intro as hf⟩
      | some a =>
        refine (storeOption_spec a { type := t } key value).last
          (block q (.queue (as ++ [a])) * entriesAt as errors) (by ac_rfl) fun rc f hf => ?_
        obtain ⟨err', ⟨m, hm, hopt⟩, hf⟩ := ex_fact_mul.mp hf
        refine ex_fact.mpr ⟨errors ++ [err'], ⟨{ m with calloc := true }, fun hp => by rw [hm hp], ?_⟩,
          queueAt_intro (as ++ [a]) ?_⟩
        · have hopt := hopt true
          rw [confOptionHandlerIn_some ht (.inr rfl), withEntry, if_neg (by simp [hany])]
          unfold optionResult at hopt
          cases hset : setOptionIn { m with calloc := true } key value with
          | some set =>
            rw [hset] at hopt
            cases hopt
            simp only [modifyEntry_append hb]
          | none =>
            rw [hset] at hopt
            cases hopt
            rfl
        · rw [entriesAt_concat]
          rwa [mul_comm, mul_assoc] at hf

-- ---------------------------------------------------------------------------
-- Loading, deleting and reading
-- ---------------------------------------------------------------------------

theorem deliver_spec (q : Addr) (opts : List (CStr × CStr × CStr)) (errors : List ErrinjConf)
    (F : Assertion Cell) (μ : Store Cell) (hs : μ.Serves plenty) (h : (queueAt q errors * F) μ.heap) :
    ∃ μ' errors', opts.foldl (Conf.deliver (handler q)) (some μ) = some μ' ∧ μ'.Serves plenty ∧
      (queueAt q errors' * F) μ'.heap ∧
      (plenty → errors' = opts.foldl (Conf.deliver UnreliableFS.confOptionHandler) errors) := by
  induction opts generalizing errors μ with
  | nil => exact ⟨μ, errors, rfl, hs, h, fun _ => rfl⟩
  | cons opt opts ih =>
    obtain ⟨rc, μ₁, hrun, hs₁, h₁⟩ := confOptionHandler_spec q errors opt.1 opt.2.1 opt.2.2 F μ hs h
    obtain ⟨errors₁, ⟨m, hm, he⟩, h₁⟩ := ex_fact_mul.mp h₁
    obtain ⟨μ', errors', hfold, hs', h', he'⟩ := ih errors₁ μ₁ hs₁ h₁
    have hstep : Conf.deliver (handler q) (some μ) opt = some μ₁ := by
      simp [Conf.deliver, handler, hrun]
    refine ⟨μ', errors', by rw [List.foldl_cons, hstep, hfold], hs', h', fun hp => ?_⟩
    rw [he' hp, List.foldl_cons, show errors₁ = _ from congrArg Prod.snd he, hm hp]
    rfl

theorem iniParse_spec (q : Addr) (file : Option (List UInt8)) :
    Triple plenty (queueAt q []) (iniParse q file) fun rc => ex fun errors : List ErrinjConf =>
      fact ((rc < 0 ↔ file = none) ∧ (file = none → errors = []) ∧
        (plenty → ∀ bytes, file = some bytes → errors = errinjList bytes)) * queueAt q errors := by
  intro F μ hs h
  cases file with
  | none =>
    exact ⟨-1, μ, rfl, hs, ex_fact_mul.mpr ⟨[], by simp, h⟩⟩
  | some bytes =>
    obtain ⟨μ', errors, hfold, hs', h', he⟩ := deliver_spec q (Conf.iniOptions bytes) [] F μ hs h
    have huser := @Conf.iniParse_user _ (handler q) bytes (some μ)
    have hnn := @Conf.iniParse_nonneg _ (handler q) bytes (some μ)
    rw [hfold] at huser
    obtain ⟨⟨rc, u⟩, hpair⟩ : ∃ r, Conf.iniParse (handler q) (some bytes) (some μ) = r := ⟨_, rfl⟩
    rw [hpair] at huser hnn
    subst huser
    refine ⟨rc, μ', by simp only [iniParse, hpair], hs', ex_fact_mul.mpr ⟨errors, ?_, h'⟩⟩
    refine ⟨iff_of_false (Int.not_lt.mpr hnn) (Option.some_ne_none _),
      fun hb => absurd hb (Option.some_ne_none _), fun hp bytes' hb => ?_⟩
    cases hb
    exact he hp

theorem entriesAt_nil {errors : List ErrinjConf} {h : Heap Cell} (he : entriesAt [] errors h) :
    errors = [] ∧ h = ∅ := by
  cases errors with
  | nil => exact ⟨rfl, he⟩
  | cons err errors => exact he.1.elim

theorem deleteEntries_spec (q : Addr) (n : Nat) (as : List Addr) (errors : List ErrinjConf)
    (hn : as.length < n) : Triple plenty (block q (.queue as) * entriesAt as errors)
      (deleteEntries q n) fun _ => block q (.queue []) := by
  induction as generalizing n errors with
  | nil =>
    cases n with
    | zero => cases hn
    | succ n =>
      refine (loadQueue_spec []).step_returns _ rfl (.pure () fun f hf => ?_)
      rw [← mul_one (block q _)]
      exact mul_mono (fun _ h => h) (fun _ he => (entriesAt_nil he).2) hf
  | cons a as ih =>
    cases n with
    | zero => cases hn
    | succ n =>
      refine (loadQueue_spec (a :: as)).step_returns _ rfl ?_
      cases errors with
      | nil => exact .of_eq (mul_comm _ _) (.of_eq (fact_false_mul _) .of_false)
      | cons err errors =>
        have hsplit : block q (.queue (a :: as)) * entriesAt (a :: as) (err :: errors) =
            entryAt a err * (entriesAt as errors * block q (.queue (a :: as))) := by
          rw [entriesAt]
          ac_rfl
        refine .of_eq (hsplit.trans (entryAt_mul a err _)) (.of_ex fun o => .of_ex fun p => ?_)
        refine (loadEntry_spec _).step_returns _ rfl ?_
        refine (freeStr_spec p err.pathRegexp).step (block a (.entry (.of err o p)) *
          (strAt o err.opRegexp * (entriesAt as errors * block q (.queue (a :: as)))))
          (by ac_rfl) fun _ => ?_
        refine (freeStr_spec o err.opRegexp).step (block a (.entry (.of err o p)) *
          (entriesAt as errors * block q (.queue (a :: as)))) (by rw [one_mul]; ac_rfl) fun _ => ?_
        refine Triple.store.step (block a (.entry (.of err o p)) * entriesAt as errors)
          (by rw [one_mul]; ac_rfl) fun _ => ?_
        refine Triple.free.step (block q (.queue as) * entriesAt as errors) (by ac_rfl) fun _ => ?_
        exact .of_eq (one_mul _) (ih n errors (Nat.lt_of_succ_lt_succ hn))

theorem configDelete_spec (r : Option Addr) (c : Option (List ErrinjConf)) :
    Triple plenty (errorsAt r c) (configDelete r) fun _ => 1 := by
  cases r with
  | none =>
    cases c with
    | none => exact .pure () fun f hf => hf
    | some errors => exact .of_false
  | some q =>
    cases c with
    | none => exact .of_false
    | some errors =>
      refine Triple.of_ex fun as => (loadQueue_spec as).step_returns _ rfl ?_
      refine (deleteEntries_spec q _ as errors (Nat.lt_succ_self _)).step 1 (mul_one _).symm fun _ => ?_
      rw [mul_one]
      exact .free

theorem readEntries_spec (as : List Addr) (errors : List ErrinjConf) :
    Triple plenty (entriesAt as errors) (readEntries as) fun r =>
      fact (r = errors) * entriesAt as errors := by
  induction as generalizing errors with
  | nil =>
    cases errors with
    | nil => exact .pure [] fun f hf => fact_mul.mpr ⟨rfl, hf⟩
    | cons err errors => exact .of_false
  | cons a as ih =>
    cases errors with
    | nil => exact .of_false
    | cons err errors =>
      refine .of_eq (entryAt_mul a err _) (.of_ex fun o => .of_ex fun p => ?_)
      refine (loadEntry_spec _).step_returns _ rfl ?_
      refine (readStr_spec p err.pathRegexp).step_returns (block a (.entry (.of err o p)) *
        (strAt o err.opRegexp * entriesAt as errors)) (by ac_rfl) ?_
      refine (readStr_spec o err.opRegexp).step_returns (block a (.entry (.of err o p)) *
        (strAt p err.pathRegexp * entriesAt as errors)) (by ac_rfl) ?_
      refine (ih errors).step_returns (block a (.entry (.of err o p)) *
        (strAt o err.opRegexp * strAt p err.pathRegexp)) (by ac_rfl) (.pure _ fun f hf => ?_)
      refine fact_mul.mpr ⟨rfl, ?_⟩
      rw [entriesAt, entryAt_mul]
      refine ⟨o, p, ?_⟩
      rwa [mul_comm, mul_assoc] at hf

theorem readErrors_spec (r : Option Addr) (c : Option (List ErrinjConf)) :
    Triple plenty (errorsAt r c) (readErrors r) fun x => fact (x = c) * errorsAt r c := by
  cases r with
  | none =>
    cases c with
    | none => exact .pure none fun f hf => fact_mul.mpr ⟨rfl, hf⟩
    | some errors => exact .of_false
  | some q =>
    cases c with
    | none => exact .of_false
    | some errors =>
      refine Triple.of_ex fun as => (loadQueue_spec as).step_returns _ rfl ?_
      refine (readEntries_spec as errors).step_returns _ (mul_comm _ _) (.pure _ fun f hf => ?_)
      refine fact_mul.mpr ⟨rfl, queueAt_intro as ?_⟩
      rwa [mul_comm]

/-- Heads of queues that nothing points to. -/
def leaked (n : Nat) : Assertion Cell := (ex fun a : Addr => block a (.queue [])) ^ n

def loaded (found : Bool) (file : Option (List UInt8)) : Option (List ErrinjConf) :=
  if found then file.map errinjList else some []

def unopened (loads : List (Bool × Option (List UInt8))) : Nat :=
  loads.countP fun l => l.1 && l.2.isNone

theorem unopened_append (loads loads' : List (Bool × Option (List UInt8))) :
    unopened (loads ++ loads') = unopened loads + unopened loads' :=
  List.countP_append

theorem leaked_one {q : Addr} {h : Heap Cell} (hq : queueAt q [] h) : leaked 1 h := by
  obtain ⟨as, hq⟩ := hq
  rw [leaked, pow_one]
  cases as with
  | nil =>
    rw [entriesAt, mul_one] at hq
    exact ⟨q, hq⟩
  | cons a as =>
    rw [mul_comm] at hq
    exact (fact_mul.mp hq).1.elim

/-- A file that does not open leaves the head of the queue behind. -/
theorem configInit_spec (found : Bool) (file : Option (List UInt8)) :
    Triple plenty 1 (configInit found file) fun r => ex fun c : Option (List ErrinjConf) =>
      ex fun n : Nat => fact ((plenty → c = loaded found file ∧ n = unopened [(found, file)]) ∧
        n ≤ unopened [(found, file)]) * (errorsAt r c * leaked n) := by
  refine (Triple.alloc (Cell.queue [])).step 1 (one_mul 1).symm fun r => ?_
  rw [mul_one]
  have hone : leaked 0 = 1 := pow_zero _
  cases r with
  | none =>
    refine .pure none fun f hf => ⟨none, ex_fact.mpr ⟨0, ⟨fun hp => absurd hp hf.1, Nat.zero_le _⟩, ?_⟩⟩
    rw [errorsAt, hone, one_mul]
    exact hf.2
  | some q =>
    have hq : ∀ f, block q (Cell.queue []) f → queueAt q [] f := fun f hf =>
      queueAt_intro [] (by rwa [entriesAt, mul_one])
    cases found with
    | false =>
      refine .pure (some q) fun f hf => ⟨some [], ex_fact.mpr ⟨0, ⟨fun _ => ⟨rfl, rfl⟩, Nat.zero_le _⟩, ?_⟩⟩
      simpa [errorsAt, hone] using hq f hf
    | true =>
      refine ((iniParse_spec q file).conseq hq fun _ _ h => h).bind fun rc => ?_
      refine .of_ex fun errors => .of_fact fun hrc => ?_
      by_cases hneg : rc < 0
      · obtain rfl := hrc.1.mp hneg
        obtain rfl := hrc.2.1 rfl
        rw [if_pos hneg]
        refine .pure none fun f hf => ⟨none, ex_fact.mpr ⟨1, ⟨fun _ => ⟨rfl, rfl⟩, Nat.le_refl _⟩, ?_⟩⟩
        simpa [errorsAt] using leaked_one hf
      · rw [if_neg hneg]
        obtain ⟨bytes, rfl⟩ := Option.ne_none_iff_exists'.mp fun hf => hneg (hrc.1.mpr hf)
        refine .pure (some q) fun f hf => ⟨some errors, ex_fact.mpr ⟨0, ⟨fun hp => ?_, Nat.zero_le _⟩, ?_⟩⟩
        · exact ⟨congrArg some (hrc.2.2 hp bytes rfl), rfl⟩
        · simpa [errorsAt, hone] using hf

end

-- ---------------------------------------------------------------------------
-- Runs of the daemon
-- ---------------------------------------------------------------------------

structure State where
  errors : Option Addr
  store : Store Cell

inductive Event
  /-- `config_delete` and `config_init`, for a path with a file or not, which opens or not. -/
  | reload (found : Bool) (file : Option (List UInt8))
  | walk

def step : Machine State Event (Option (Option (List ErrinjConf)))
  | s, .reload found file =>
    ((do configDelete s.errors; configInit found file : Mem Cell (Option Addr)) s.store).map
      fun r => (none, ⟨r.1, r.2⟩)
  | s, .walk => (readErrors s.errors s.store).map fun r => (some r.1, ⟨s.errors, r.2⟩)

def Event.loads : Event → List (Bool × Option (List UInt8))
  | .reload found file => [(found, file)]
  | .walk => []

structure Holds (plenty : Prop) (loads : List (Bool × Option (List UInt8))) (s : State)
    (c : Option (List ErrinjConf)) (n : Nat) : Prop where
  serves : s.store.Serves plenty
  heap : (errorsAt s.errors c * leaked n) s.store.heap
  le : n ≤ unopened loads
  eq : plenty → n = unopened loads ∧ ∀ l ∈ loads.getLast?, c = loaded l.1 l.2

namespace Holds

variable {plenty : Prop} {loads : List (Bool × Option (List UInt8))} {s s' : State}
  {c : Option (List ErrinjConf)} {n : Nat}

theorem loaded_next {μ : Store Cell} {m : Nat} (hs : μ.Serves plenty) (hm : leaked m μ.heap)
    (hle : m ≤ unopened loads) (heq : plenty → m = unopened loads) (found : Bool)
    (file : Option (List UInt8)) : ∃ r μ', configInit found file μ = some (r, μ') ∧
      ∃ c n, Holds plenty (loads ++ [(found, file)]) ⟨r, μ'⟩ c n := by
  obtain ⟨r, μ', hrun, hs', h⟩ := configInit_spec found file (leaked m) μ hs (by rwa [one_mul])
  rw [ex_mul] at h
  obtain ⟨c, h⟩ := h
  obtain ⟨k, ⟨hk, hkle⟩, h⟩ := ex_fact_mul.mp h
  have hpow : leaked k * leaked m = leaked (k + m) := (pow_add _ _ _).symm
  refine ⟨r, μ', hrun, c, k + m, hs', by rwa [← hpow, ← mul_assoc], ?_, fun hp => ?_⟩
  · rw [unopened_append]
    omega
  · obtain ⟨rfl, rfl⟩ := hk hp
    simp [heq hp, unopened_append, Nat.add_comm]

theorem delete (h : Holds plenty loads s c n) : ∃ μ, configDelete s.errors s.store = some ((), μ) ∧
    μ.Serves plenty ∧ leaked n μ.heap := by
  obtain ⟨⟨⟩, μ, hrun, hs, h'⟩ := configDelete_spec s.errors c (leaked n) s.store h.serves h.heap
  exact ⟨μ, hrun, hs, by rwa [one_mul] at h'⟩

theorem walk (h : Holds plenty loads s c n) : ∃ s', step s .walk = some (some c, s') ∧
    Holds plenty loads s' c n := by
  obtain ⟨r, μ, hrun, hs, h'⟩ := readErrors_spec s.errors c (leaked n) s.store h.serves h.heap
  rw [mul_assoc] at h'
  obtain ⟨rfl, h'⟩ := fact_mul.mp h'
  exact ⟨⟨s.errors, μ⟩, by simp [step, hrun], hs, h', h.le, h.eq⟩

theorem reload (h : Holds plenty loads s c n) (found : Bool) (file : Option (List UInt8)) :
    ∃ s', step s (.reload found file) = some (none, s') ∧
      ∃ c n, Holds plenty (loads ++ [(found, file)]) s' c n := by
  obtain ⟨μ, hdel, hs, hl⟩ := h.delete
  obtain ⟨r, μ', hrun, hnext⟩ := loaded_next hs hl h.le (fun hp => (h.eq hp).1) found file
  refine ⟨⟨r, μ'⟩, ?_, hnext⟩
  simp [step, Bind.bind, StateT.bind, hdel, hrun]

theorem step (h : Holds plenty loads s c n) (e : Event) : ∃ out s',
    InMemory.step s e = some (out, s') ∧ ∃ c n, Holds plenty (loads ++ e.loads) s' c n := by
  cases e with
  | reload found file =>
    obtain ⟨s', hs, hnext⟩ := h.reload found file
    exact ⟨none, s', hs, hnext⟩
  | walk =>
    obtain ⟨s', hs, hnext⟩ := h.walk
    exact ⟨some c, s', hs, c, n, by simpa [Event.loads] using hnext⟩

theorem run {ls : List (Bool × Option (List UInt8))} (h : Holds plenty loads s c n)
    (hr : Run InMemory.step (fun _ _ => True) (fun _ e _ => e.loads) s ls s') :
    ∃ c n, Holds plenty (loads ++ ls) s' c n := by
  induction hr with
  | nil => exact ⟨c, n, by simpa using h⟩
  | step _ _ hs ih =>
    obtain ⟨c₁, n₁, h₁⟩ := ih
    obtain ⟨out, s₂, hs₂, hnext⟩ := h₁.step _
    rw [hs] at hs₂
    cases hs₂
    simpa using hnext

end Holds

/-- Runs of a daemon from here on, with the loads in them. -/
abbrev Runs (s : State) (ls : List (Bool × Option (List UInt8))) (s' : State) : Prop :=
  Run InMemory.step (fun _ _ => True) (fun _ e _ => e.loads) s ls s'

theorem holds_of_runs (fails : Nat → Bool) (first : Bool × Option (List UInt8)) :
    ∃ errors store, configInit first.1 first.2 ⟨∅, fails⟩ = some (errors, store) ∧
      ∀ ls s, Runs ⟨errors, store⟩ ls s → ∃ c n, Holds (∀ n, fails n = false) (first :: ls) s c n := by
  have hempty : leaked 0 (∅ : Heap Cell) := rfl
  have hserves : (⟨∅, fails⟩ : Store Cell).Serves (∀ n, fails n = false) := fun hp => hp
  obtain ⟨errors, store, hrun, c, n, h⟩ := Holds.loaded_next hserves hempty
    (Nat.zero_le (unopened [])) (fun _ => rfl) first.1 first.2
  exact ⟨errors, store, hrun, fun ls s hr => h.run hr⟩

/-- Whatever allocations fail, nothing is used that is not live, nothing is freed twice,
and at the end nothing is left but a head of a queue for each load of a file that was
there and did not open. -/
theorem config_memory_safe (fails : Nat → Bool) (first : Bool × Option (List UInt8)) :
    ∃ errors store, configInit first.1 first.2 ⟨∅, fails⟩ = some (errors, store) ∧
      ∀ ls s, Runs ⟨errors, store⟩ ls s → (∀ e, ∃ out s', step s e = some (out, s')) ∧
        ∃ μ, configDelete s.errors s.store = some ((), μ) ∧
          (∀ a ∈ μ.heap, μ.heap.lookup a = some (.queue [])) ∧
          μ.heap.keys.card ≤ unopened (first :: ls) := by
  obtain ⟨errors, store, hrun, hall⟩ := holds_of_runs fails first
  refine ⟨errors, store, hrun, fun ls s hr => ?_⟩
  obtain ⟨c, n, h⟩ := hall ls s hr
  constructor
  · intro e
    obtain ⟨out, s', hs, -⟩ := h.step e
    exact ⟨out, s', hs⟩
  · obtain ⟨μ, hdel, -, hl⟩ := h.delete
    obtain ⟨hcard, hlook⟩ := block_pow hl
    exact ⟨μ, hdel, hlook, hcard ▸ h.le⟩

/-- With memory enough a walk reads the list the last load is of, the one decisions are
modelled with, and the heads left behind are as many as the loads that failed. -/
theorem config_memory_refines (fails : Nat → Bool) (hf : ∀ n, fails n = false)
    (first : Bool × Option (List UInt8)) :
    ∃ errors store, configInit first.1 first.2 ⟨∅, fails⟩ = some (errors, store) ∧
      ∀ ls s, Runs ⟨errors, store⟩ ls s →
        (∀ (β : Type) (os : OS β) (b : β) (path : CStr),
          (decide (os.access b path = 0), os.slurp b path) ∈ (first :: ls).getLast? →
          ∃ s', step s .walk = some (some (os.loaded b path), s')) ∧
        ∀ μ, configDelete s.errors s.store = some ((), μ) →
          μ.heap.keys.card = unopened (first :: ls) := by
  obtain ⟨errors, store, hrun, hall⟩ := holds_of_runs fails first
  refine ⟨errors, store, hrun, fun ls s hr => ?_⟩
  obtain ⟨c, n, h⟩ := hall ls s hr
  constructor
  · intro β os b path hlast
    obtain ⟨s', hs, -⟩ := h.walk
    have hc : c = os.loaded b path := by
      simpa [loaded, OS.loaded] using (h.eq hf).2 _ hlast
    exact ⟨s', hc ▸ hs⟩
  · intro μ hdel
    obtain ⟨μ', hdel', -, hl⟩ := h.delete
    rw [hdel] at hdel'
    cases hdel'
    rw [(block_pow hl).1, (h.eq hf).1]

def noopFile : List UInt8 := ascii "[errinj_noop]\nprobability = 100\n"

theorem config_memory_refines_noop : ∃ errors store s s',
    configInit true none ⟨∅, fun _ => false⟩ = some (errors, store) ∧
    Runs ⟨errors, store⟩ [(true, some noopFile)] s ∧
    step s .walk = some (some (some [{ type := .noop, probability := 100 }]), s') ∧
    ∀ μ, configDelete s.errors s.store = some ((), μ) → μ.heap.keys.card = 1 := by
  obtain ⟨errors, store, hrun, hall⟩ := config_memory_refines (fun _ => false) (fun _ => rfl) (true, none)
  obtain ⟨errors', store', hrun', hholds⟩ := holds_of_runs (fun _ => false) (true, none)
  rw [hrun] at hrun'
  cases hrun'
  obtain ⟨c, n, h⟩ := hholds [] _ .nil
  obtain ⟨s, hs, -⟩ := h.reload true (some noopFile)
  have hr : Runs ⟨errors, store⟩ [(true, some noopFile)] s := Run.nil.step trivial hs
  obtain ⟨hwalk, hcard⟩ := hall _ s hr
  let os : OS Unit :=
    ⟨fun _ b => (.fail .EINVAL, b), fun _ _ => 0, fun _ _ => some noopFile, fun b _ => b⟩
  obtain ⟨s', hs'⟩ := hwalk Unit os () [] rfl
  exact ⟨errors, store, s, s', hrun, hr, hs', hcard⟩

end UnreliableFS.InMemory
