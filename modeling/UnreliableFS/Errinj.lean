import UnreliableFS.Conf
import UnreliableFS.ErrnoTables
import UnreliableFS.Interaction.Prog

/-!
# Fault injection

`unreliablefs_errinj.c`: the list of fault entries, how the configuration
handler builds it, and `error_inject`, which every operation calls first. The
decision is a program over `daemonSig`: what it reads and writes of the
daemon's globals, the random numbers it draws, and the signals and sleeps it
asks for are its calls. The regular expression library is a parameter. Where the
list is built for a decision, memory is not exhausted.
-/

namespace UnreliableFS

open Interaction

def ERRNO_NOOP : Int := -999
def MIN_PROBABLITY : Int := 0
def MAX_PROBABLITY : Int := 100
def DEFAULT_SIGNAL : Nat := 9

-- ---------------------------------------------------------------------------
-- Fault entries
-- ---------------------------------------------------------------------------

inductive ErrinjType
  | errno | killCaller | noop | slowdown
  deriving DecidableEq, Repr

def ErrinjType.all : List ErrinjType := [.errno, .killCaller, .noop, .slowdown]

def errinjName : ErrinjType → CStr
  | .errno => ascii "errinj_errno"
  | .killCaller => ascii "errinj_kill_caller"
  | .noop => ascii "errinj_noop"
  | .slowdown => ascii "errinj_slowdown"

/-- `struct errinj_conf`, without the two fields nothing reads. A regular
expression that was not configured is a null pointer. -/
structure ErrinjConf where
  type : ErrinjType
  opRegexp : Option CStr := none
  pathRegexp : Option CStr := none
  probability : Nat := 0
  duration : Nat := 0
  deriving DecidableEq, Repr

/-- The loop runs to its end, so the last of equal names would win; `none` is -1. -/
def errinjTypeByName (name : CStr) : Option ErrinjType :=
  ErrinjType.all.foldl (fun idx t => if errinjName t = name then some t else idx) none

def modifyEntry (t : ErrinjType) (f : ErrinjConf → ErrinjConf) : List ErrinjConf → List ErrinjConf
  | [] => []
  | err :: rest => if err.type = t then f err :: rest else err :: modifyEntry t f rest

/-- Which allocations of one call of the handler succeed: the `calloc` of an entry and
the `strdup` of a value. -/
structure Allocs where
  calloc : Bool := true
  strdup : Bool := true
  deriving DecidableEq, Repr

/-- The field a key names, set to a value; a value that could not be copied is a null
pointer. -/
def setOptionIn (m : Allocs) (key value : CStr) : Option (ErrinjConf → ErrinjConf) :=
  let copy := if m.strdup then some value else none
  if key = ascii "path_regexp" then some fun err => { err with pathRegexp := copy }
  else if key = ascii "op_regexp" then some fun err => { err with opRegexp := copy }
  else if key = ascii "probability" then
    some fun err => { err with probability := toUnsigned (atoi value) }
  else if key = ascii "duration" then
    some fun err => { err with duration := toUnsigned (atoi value) }
  else none

def confOptionHandlerIn (m : Allocs) : Conf.Handler (List ErrinjConf) := fun cfg section_ key value =>
  match errinjTypeByName section_ with
  | none => (-1, cfg)
  | some curType =>
    let found := cfg.any (·.type = curType)
    if ¬found ∧ ¬m.calloc then (-1, cfg)
    else
      -- the entry is in the list before the key is looked at
      let cfg := if found then cfg else cfg ++ [{ type := curType }]
      match setOptionIn m key value with
      | some set => (1, modifyEntry curType set cfg)
      | none => (0, cfg)

-- while memory lasts

def setOption : CStr → CStr → Option (ErrinjConf → ErrinjConf) := setOptionIn {}

def confOptionHandler : Conf.Handler (List ErrinjConf) := confOptionHandlerIn {}

-- ---------------------------------------------------------------------------
-- What the decision calls
-- ---------------------------------------------------------------------------

inductive DaemonCall
  | lock
  | unlock
  /-- `conf.errors`; `none` is a null pointer. -/
  | errors
  | setErrors (errors : Option (List ErrinjConf))
  | rand
  /-- The line on stdout that an entry has triggered. -/
  | triggered (type : ErrinjType) (op : FuseOp) (path : CStr)
  | getContext
  | kill (pid : Int) (sig : Nat)
  | nanosleep (sec nsec : Nat)
  /-- `access(path, F_OK)`. -/
  | access (path : CStr)
  /-- `fopen`, `fgets` up to the end and `fclose`; `none` when it does not open. Where it
  matters that the file may change in the meantime, a theorem asks that it does not. -/
  | slurp (path : CStr)

abbrev DaemonCall.Reply : DaemonCall → Type
  | .errors => Option (List ErrinjConf)
  | .rand => Nat
  | .getContext => Option Int
  | .kill _ _ | .nanosleep _ _ | .access _ => Int
  | .slurp _ => Option (List UInt8)
  | _ => Unit

abbrev daemonSig : Sig := ⟨DaemonCall, DaemonCall.Reply⟩

abbrev Decision := Prog daemonSig

abbrev Regcomp := CStr → Int × (CStr → Int)

structure Setup where
  build : Build
  regcomp : Regcomp
  configPath : CStr

variable (E : Setup)

-- ---------------------------------------------------------------------------
-- Loading the configuration
-- ---------------------------------------------------------------------------

def configInit (confPath : CStr) : Decision (Option (List ErrinjConf)) := do
  let found : Int ← Prog.ask (S := daemonSig) (.access confPath)
  if found = 0 then
    let file : Option (List UInt8) ← Prog.ask (S := daemonSig) (.slurp confPath)
    let (rc, errors) := Conf.iniParse confOptionHandler file []
    if rc < 0 then return none
    return some errors
  return some []

-- ---------------------------------------------------------------------------
-- The decision
-- ---------------------------------------------------------------------------

def randRange (minN maxN : Int) : Decision Int := do
  let r : Nat ← Prog.ask (S := daemonSig) .rand
  return r % (maxN - minN + 1) + minN

/-- 0 for a match. A missing expression matches; an expression that does not
compile returns the code of `regcomp`. -/
def isRegexMatched (regex : Option CStr) (string : CStr) : Int :=
  match regex with
  | none => 0
  | some regex =>
    let (rc, regexec) := E.regcomp regex
    if rc ≠ 0 then rc else regexec string

/-- `RANDOM_ELEMENT` draws from 0 to the length of the table, both included. -/
def opRandomErrno (op : FuseOp) : Decision Int :=
  match E.build.errnoTable op with
  | none => return -1
  | some arr => do
    let i ← randRange 0 arr.length
    return (arr.map fun e => (E.build.code e : Int)).getD i.toNat (E.build.past op)

/-- The branches of the `switch` on the type of a triggered entry; returns the
new `rc`. -/
def act (op : FuseOp) (err : ErrinjConf) (rc : Int) : Decision Int :=
  match err.type with
  | .noop => return -ERRNO_NOOP
  | .killCaller => do
    let cxt : Option Int ← Prog.ask (S := daemonSig) .getContext
    if let some pid := cxt then
      let _ ← Prog.ask (S := daemonSig) (.kill pid DEFAULT_SIGNAL)
    return rc
  | .errno => do
    let rc ← opRandomErrno E op
    return -rc
  | .slowdown => do
    let _ ← Prog.ask (S := daemonSig) (.nanosleep 0 err.duration)
    return rc

def matches_ (err : ErrinjConf) (path : CStr) (op : FuseOp) : Bool :=
  isRegexMatched E err.pathRegexp path = 0 && isRegexMatched E err.opRegexp (fuseOpName op) = 0

def injectEach (path : CStr) (op : FuseOp) : List ErrinjConf → Int → Decision Int
  | [], rc => return rc
  | err :: rest, rc => do
    let p ← randRange MIN_PROBABLITY MAX_PROBABLITY
    if ¬ p ≤ err.probability then
      injectEach path op rest rc
    else if ¬ matches_ E err path op then
      injectEach path op rest rc
    else
      let _ ← Prog.ask (S := daemonSig) (.triggered err.type op path)
      let rc ← act E op err rc
      injectEach path op rest rc

def errorInject (path : CStr) (op : FuseOp) : Decision Int := do
  let _ ← Prog.ask (S := daemonSig) .lock
  if path = E.configPath then
    -- config_delete frees the old list; nothing of it is read again
    let errors ← configInit path
    let _ ← Prog.ask (S := daemonSig) (.setErrors errors)
    let _ ← Prog.ask (S := daemonSig) .unlock
    return 0
  else
    let errors : Option (List ErrinjConf) ← Prog.ask (S := daemonSig) .errors
    let rc ← match errors with
      | none => pure 0
      | some errors => injectEach E path op errors 0
    let _ ← Prog.ask (S := daemonSig) .unlock
    return rc

end UnreliableFS
