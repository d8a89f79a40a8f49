import UnreliableFS.Posix.Kernel
import UnreliableFS.Session

/-!
# Injected faults are all or nothing

An operation that a code is injected into makes no system call and leaves its
memory and the base as they were; one that is let through does what it does
without a list. So a list that replaces every operation by a no-op keeps the
base as it is, as long as nothing is decided for the configuration's path. The
decision about a symbolic link is one for the text of the link, which may be
that path although the link is elsewhere.
-/

namespace UnreliableFS

open Interaction Posix

variable {β : Type} {os : OS β} {E : Setup}

-- ---------------------------------------------------------------------------
-- One operation
-- ---------------------------------------------------------------------------

def World.unloaded (w : World β) : World β := { w with errors := none }

/-- The reply of an operation, its memory and the base it leaves. -/
def Operation.outcome (os : OS β) (E : Setup) (o : Operation) (l : Local) (w : World β) :
    Option ((Int × Local) × β) :=
  ((o.call E l).run os.handler w).map fun r => (r.1, r.2.base)

structure AllOrNothing (os : OS β) (E : Setup) (o : Operation) (l : Local) (w : World β) : Prop where
  nothing : w.decision os E o.path o.op ≠ 0 → o.sysTrace os E l w = [] ∧
    o.outcome os E l w = some ((if w.decision os E o.path o.op = -ERRNO_NOOP then 0
      else w.decision os E o.path o.op, l), w.base)
  all : w.decision os E o.path o.op = 0 →
    o.sysTrace os E l w = o.sysTrace os E l w.unloaded ∧
      o.outcome os E l w = o.outcome os E l w.unloaded

theorem Operation.outcome_injected {o : Operation} {l : Local} {w : World β}
    (h : w.decision os E o.path o.op ≠ 0) :
    o.outcome os E l w = some ((if w.decision os E o.path o.op = -ERRNO_NOOP then 0
      else w.decision os E o.path o.op, l), w.base) := by
  unfold Operation.outcome
  rw [Operation.call_run, if_pos h]
  split <;> simp only [Option.map_some, decided_base, atBody_of_decision h]

theorem Operation.outcome_executed {o : Operation} {l : Local} {w : World β}
    (h : w.decision os E o.path o.op = 0) :
    o.outcome os E l w = (o.body l).run os.kernel (os.atBody E w.base o.path) := by
  have hn : ¬(0 : Int) = -ERRNO_NOOP := by decide
  unfold Operation.outcome
  rw [Operation.call_run, h, if_neg hn, if_neg (not_not_intro rfl), Option.map_map]
  exact Option.map_id'

theorem Operation.allOrNothing (o : Operation) (l : Local) (w : World β) :
    AllOrNothing os E o l w where
  nothing h := by
    rw [Operation.sysTrace_eq, if_neg h]
    exact ⟨rfl, Operation.outcome_injected h⟩
  all h := by
    have h₀ : w.unloaded.decision os E o.path o.op = 0 := decision_of_none rfl ..
    rw [Operation.sysTrace_eq, Operation.sysTrace_eq, if_pos h, if_pos h₀,
      Operation.outcome_executed h, Operation.outcome_executed h₀]
    exact ⟨rfl, rfl⟩

-- ---------------------------------------------------------------------------
-- A list that replaces everything
-- ---------------------------------------------------------------------------

structure ErrinjConf.ReplacesAll (err : ErrinjConf) : Prop where
  type : err.type = .noop
  opRegexp : err.opRegexp = none
  pathRegexp : err.pathRegexp = none
  probability : 100 ≤ err.probability

structure NoopInForce (errors : List ErrinjConf) : Prop where
  noop : ∃ err ∈ errors, err.ReplacesAll
  noErrno : ∀ err ∈ errors, err.type ≠ .errno

theorem act_run_keeps {err : ErrinjConf} (he : err.type ≠ .errno) (op : FuseOp) (rc : Int)
    (w : World β) : (act E op err rc).run (daemon os) w =
      some (if err.type = .noop then -ERRNO_NOOP else rc, w) := by
  unfold act
  cases ht : err.type with
  | errno => exact absurd ht he
  | noop => rfl
  | slowdown => rfl
  | killCaller =>
    simp only [Prog.ask, Prog.call_bind, Prog.done_bind, Prog.run_call, daemon]
    cases w.caller <;> rfl

theorem ErrinjConf.ReplacesAll.triggers {err : ErrinjConf} (h : err.ReplacesAll) (path : CStr)
    (op : FuseOp) (r : Nat) : Triggers E path op err r := by
  have hp := h.probability
  refine ⟨?_, by simp [matches_, isRegexMatched, h.opRegexp, h.pathRegexp]⟩
  unfold MAX_PROBABLITY MIN_PROBABLITY
  omega

variable (os E) in
theorem injectEach_noop (path : CStr) (op : FuseOp) (errors : List ErrinjConf)
    (he : ∀ err ∈ errors, err.type ≠ .errno) (rc : Int)
    (hrc : rc = -ERRNO_NOOP ∨ ∃ err ∈ errors, err.ReplacesAll) (w : World β) :
    ∃ w', (injectEach E path op errors rc).run (daemon os) w = some (-ERRNO_NOOP, w') := by
  induction errors generalizing rc w with
  | nil =>
    obtain rfl : rc = -ERRNO_NOOP := hrc.resolve_right (by simp)
    exact ⟨w, rfl⟩
  | cons err rest ih =>
    have ih := ih fun e hm => he e (List.mem_cons_of_mem _ hm)
    -- what is left to do when the entry at hand does not replace everything
    have hskip (h : ¬err.ReplacesAll) : rc = -ERRNO_NOOP ∨ ∃ err ∈ rest, err.ReplacesAll := by
      obtain h₀ | ⟨e, hm, hr⟩ := hrc
      · exact .inl h₀
      · obtain rfl | hm := List.mem_cons.mp hm
        · exact absurd hr h
        · exact .inr ⟨e, hm, hr⟩
    rw [injectEach_cons_run]
    by_cases ht : Triggers E path op err (w.draws 0)
    · rw [if_pos ht, act_run_keeps (he err List.mem_cons_self), Option.bind_some]
      by_cases hr : err.type = .noop
      · rw [if_pos hr]
        exact ih _ (.inl rfl) _
      · rw [if_neg hr]
        exact ih rc (hskip fun h => hr h.type) _
    · rw [if_neg ht]
      exact ih rc (hskip fun h => ht (h.triggers path op _)) _

theorem decision_noop {path : CStr} (hp : path ≠ E.configPath) {errors : List ErrinjConf}
    {w : World β} (hw : w.errors = some errors) (h : NoopInForce errors) (op : FuseOp) :
    w.decision os E path op = -ERRNO_NOOP := by
  obtain ⟨w', hr⟩ := injectEach_noop os E path op errors h.noErrno 0 (.inr h.noop) w
  unfold World.decision errorInject
  simp only [hp, ↓reduceIte, Prog.ask, Prog.call_bind, Prog.done_bind, Prog.run_call, daemon, hw,
    Prog.run_bind, hr]
  rfl

-- ---------------------------------------------------------------------------
-- Runs off the configuration's path
-- ---------------------------------------------------------------------------

namespace Request

def paths : Request → List CStr
  | .symlink _ linkpath => [linkpath]
  | .rename oldpath newpath | .link oldpath newpath => [oldpath, newpath]
  | r => [r.path]

def linkText? : Request → Option CStr
  | .symlink target _ => some target
  | _ => none

def Elsewhere (r : Request) (configPath : CStr) : Prop := ∀ p ∈ r.paths, p ≠ configPath

theorem Elsewhere.path_ne {r : Request} {c : CStr} (h : r.Elsewhere c) (ht : r.linkText? ≠ some c) :
    r.path ≠ c := by
  cases r with
  | symlink target linkpath => exact fun hc => ht (congrArg some hc)
  | _ => exact h _ List.mem_cons_self

end Request

theorem Session.serve_noop {fuel : Nat} {s s' : Session β} {i : Incoming} {out : Int × Local}
    {errors : List ErrinjConf} (hw : s.world.errors = some errors) (h : NoopInForce errors)
    (hp : i.request.path ≠ E.configPath) (hs : Session.serve os E fuel s i = some (out, s')) :
    s'.world.errors = s.world.errors ∧ s'.world.base = s.world.base := by
  have hc : s.code i os E ≠ 0 := by
    unfold Session.code
    rw [decision_noop hp hw h]
    decide
  obtain ⟨-, hw', -⟩ := Session.serve_injected hc hs
  obtain ⟨draws, hd⟩ := decided_other os hp s.world i.request.op
  rw [hw', hd]
  exact ⟨rfl, rfl⟩

/-- Every operation is all or nothing; and a list that replaces everything by a
no-op keeps the base as it is in every run off the configuration's path that
makes no link with that path as its text. -/
theorem faults_all_or_nothing (os : OS β) (E : Setup) (fuel : Nat) :
    (∀ (r : Request) (l : Local) (w : World β), AllOrNothing os E (r.operation fuel) l w) ∧
    ∀ (errors : List ErrinjConf) (s s' : Session β), s.world.errors = some errors →
      NoopInForce errors →
      Reachable (Session.serve os E fuel) (fun _ i => i.request.Elsewhere E.configPath ∧
        i.request.linkText? ≠ some E.configPath) s s' →
      s'.world.base = s.world.base := by
  refine ⟨fun r l w => Operation.allOrNothing _ l w, fun errors s s' hw hn h => ?_⟩
  have hinv : s'.world.errors = some errors ∧ s'.world.base = s.world.base := by
    refine h.invariant (I := fun t => t.world.errors = some errors ∧ t.world.base = s.world.base)
      (fun t i out t' ht hg hs => ?_) ⟨hw, rfl⟩
    obtain ⟨he, hb⟩ := Session.serve_noop ht.1 hn (hg.1.path_ne hg.2) hs
    exact ⟨he.trans ht.1, hb.trans ht.2⟩
  exact hinv.2

def noopEntry : ErrinjConf := { type := .noop, probability := 100 }

theorem noopInForce_noopEntry : NoopInForce [noopEntry] where
  noop := ⟨noopEntry, List.mem_cons_self, rfl, rfl, rfl, Nat.le_refl 100⟩
  noErrno := by simp [noopEntry]

theorem faults_all_or_nothing_mkdir : ∃ s' : Session Base,
    Reachable (Session.serve (posix .small) (smallSetup (ascii "/c")) 0)
      (fun _ i => i.request.Elsewhere (ascii "/c") ∧ i.request.linkText? ≠ some (ascii "/c"))
      ⟨bootWorld .root (some [noopEntry]), fun _ => none⟩ s' ∧
    s'.world.base = (bootWorld .root (some [noopEntry])).base := by
  let i : Incoming := ⟨.mkdir (ascii "/d") 0o755, 0, .zero⟩
  let s : Session Base := ⟨bootWorld .root (some [noopEntry]), fun _ => none⟩
  obtain ⟨⟨out, s'⟩, hs⟩ := Option.isSome_iff_exists.mp
    (by decide : (Session.serve (posix .small) (smallSetup (ascii "/c")) 0 s i).isSome)
  have h := Reachable.step (G := fun _ i => i.request.Elsewhere (ascii "/c") ∧
    i.request.linkText? ≠ some (ascii "/c")) .refl ⟨by unfold Request.Elsewhere; decide, by decide⟩ hs
  exact ⟨s', h, (faults_all_or_nothing _ _ _).2 [noopEntry] s s' rfl noopInForce_noopEntry h⟩

/-- A symbolic link to the configuration's path is made although every operation
is a no-op. -/
theorem not_nothing_of_symlink : ∃ s' : Session Base,
    Reachable (Session.serve (posix .small) (smallSetup (ascii "/c")) 0)
      (fun _ i => i.request.Elsewhere (ascii "/c"))
      ⟨bootWorld .root (some [noopEntry]), fun _ => none⟩ s' ∧
    NoopInForce [noopEntry] ∧
    s'.world.base.tree.names ≠ (bootWorld .root (some [noopEntry])).base.tree.names := by
  let i : Incoming := ⟨.symlink (ascii "/c") (ascii "/l"), 0, .zero⟩
  let s : Session Base := ⟨bootWorld .root (some [noopEntry]), fun _ => none⟩
  obtain ⟨⟨out, s'⟩, hs⟩ := Option.isSome_iff_exists.mp
    (by decide : (Session.serve (posix .small) (smallSetup (ascii "/c")) 0 s i).isSome)
  have hn : (Session.serve (posix .small) (smallSetup (ascii "/c")) 0 s i).map
      (fun r => r.2.world.base.tree.names) = some [([ascii "l"], 1), ([], 0)] := by decide
  rw [hs] at hn
  have hn : s'.world.base.tree.names = [([ascii "l"], 1), ([], 0)] := Option.some.inj hn
  refine ⟨s', .step .refl (by unfold Request.Elsewhere; decide) hs, noopInForce_noopEntry, ?_⟩
  rw [hn]
  decide

end UnreliableFS
