import UnreliableFS.Decision
import UnreliableFS.Reload

/-!
# Selection by path

`path_regexp` is to select the paths an operation is applied to. The decision is
made about one path: of `rename` and `link` the first, and of `symlink` the text
of the link, which need not be a path at all.
-/

namespace UnreliableFS

open Interaction Posix

variable {β : Type} (os : OS β) (E : Setup)

def World.visited (w : World β) (path : CStr) (op : FuseOp) : List Visit :=
  if path = E.configPath then [] else visits E path op w.list w.draws

/-- An entry triggers if and only if its `path_regexp` selects one of the paths of
the request, and the configuration stays as it is. -/
structure SelectedByNames (w : World β) (r : Request) (err : ErrinjConf) : Prop where
  selects : (∃ v ∈ w.visited E r.path r.op, v.entry = err ∧ v.Triggered E r.path r.op) ↔
    ∃ p ∈ r.paths, Selects E err.pathRegexp p
  noReload : ∀ errors, .setErrors errors ∉ Decision.calls os (errorInject E r.path r.op) w

/-- The path decided about stands for all paths of the request. -/
def Request.NamesSeen (regex : Option CStr) : Request → Prop
  | .rename oldpath newpath | .link oldpath newpath =>
    Selects E regex newpath → Selects E regex oldpath
  | .symlink target linkpath =>
    target ≠ E.configPath ∧ (Selects E regex target ↔ Selects E regex linkpath)
  | _ => True

variable {os E} {w : World β} {path : CStr} {op : FuseOp} {errors : List ErrinjConf}

-- ---------------------------------------------------------------------------
-- What a decision calls
-- ---------------------------------------------------------------------------

theorem acts_quiet (v : Visit) (caller : Option Int) : ∀ c ∈ v.acts E path op caller,
    c.triggered? = none ∧ ∀ errors, c ≠ .setErrors errors := by
  unfold Visit.acts
  split
  · cases v.entry.type <;> cases caller <;> simp [DaemonCall.triggered?]
  · simp

theorem lines_visit (v : Visit) (caller : Option Int) :
    (v.calls E path op caller).filterMap DaemonCall.triggered? =
      if v.Triggered E path op then [v.entry.type] else [] := by
  have hacts : (v.acts E path op caller).filterMap DaemonCall.triggered? = [] :=
    List.filterMap_eq_nil_iff.mpr fun c hc => (acts_quiet v caller c hc).1
  unfold Visit.calls
  split
  · cases ht : v.entry.type with
    | noop => rfl
    | slowdown => exact congrArg (_ :: ·) hacts
    | killCaller => exact congrArg (_ :: ·) hacts
    | errno => cases v.extra <;> rfl
  · rfl

theorem setErrors_not_mem_visit (v : Visit) (caller : Option Int)
    (errors : Option (List ErrinjConf)) : .setErrors errors ∉ v.calls E path op caller := by
  have hacts : .setErrors errors ∉ v.acts E path op caller := fun h =>
    (acts_quiet v caller _ h).2 errors rfl
  unfold Visit.calls
  split
  · cases v.entry.type with
    | noop => simp
    | slowdown => simpa using hacts
    | killCaller => simpa using hacts
    | errno => cases v.extra <;> simp
  · simp

theorem triggered_eq_visited (w : World β) (path : CStr) (op : FuseOp) : w.triggered os E path op =
    ((w.visited E path op).filter (·.Triggered E path op)).map (·.entry.type) := by
  unfold World.visited
  by_cases hp : path = E.configPath
  · rw [if_pos hp, hp, triggered_config]
    rfl
  · rw [if_neg hp]
    cases hw : w.errors with
    | none =>
      rw [triggered_of_none hw hp]
      simp [World.list, hw, visits]
    | some errors =>
      have hcalls := (errorInject_replays os op hp hw).2
      have hlines : w.triggered os E path op =
          (Decision.calls os (errorInject E path op) w).filterMap DaemonCall.triggered? := by
        unfold World.triggered lines Decision.calls
        rw [List.filterMap_map]
        rfl
      have hl : w.list = errors := by simp [World.list, hw]
      have hvisits (vs : List Visit) :
          vs.flatMap (fun v => (v.calls E path op w.caller).filterMap DaemonCall.triggered?) =
            (vs.filter (·.Triggered E path op)).map (·.entry.type) := by
        induction vs with
        | nil => rfl
        | cons v vs ih =>
          rw [List.flatMap_cons, List.filter_cons, ih, lines_visit]
          by_cases hv : v.Triggered E path op <;> simp [hv]
      rw [hlines, hcalls, hl, List.filterMap_append, List.filterMap_append, List.filterMap_flatMap,
        hvisits]
      exact List.append_nil _

theorem reloads_config (w : World β) (op : FuseOp) :
    .setErrors (os.loaded w.base E.configPath) ∈
      Decision.calls os (errorInject E E.configPath op) w := by
  have hrun : (configInit E.configPath).run (daemon os) w = _ := configInit_run E.configPath w
  have hcalls := calls_bind (f := fun errors => Prog.call (S := daemonSig) (.setErrors errors)
    fun _ => Prog.call (S := daemonSig) .unlock fun _ => Prog.done (0 : Int)) hrun
  have hmem : .setErrors (os.loaded w.base E.configPath) ∈ Decision.calls os
      (configInit E.configPath >>= fun errors => Prog.call (S := daemonSig) (.setErrors errors)
        fun _ => Prog.call (S := daemonSig) .unlock fun _ => Prog.done (0 : Int)) w := by
    rw [hcalls]
    exact List.mem_append_right _ List.mem_cons_self
  unfold errorInject
  rw [if_pos rfl]
  exact List.mem_cons_of_mem _ hmem

theorem no_reload (hp : path ≠ E.configPath) (w : World β) (op : FuseOp)
    (errors : Option (List ErrinjConf)) :
    .setErrors errors ∉ Decision.calls os (errorInject E path op) w := by
  cases hw : w.errors with
  | none =>
    simp [Decision.calls, errorInject, hp, Prog.ask, daemon, hw]
  | some list =>
    rw [(errorInject_replays os op hp hw).2]
    simp [setErrors_not_mem_visit]

-- ---------------------------------------------------------------------------
-- The paths of a request
-- ---------------------------------------------------------------------------

structure ErrinjConf.ForPaths (err : ErrinjConf) (regex : CStr) : Prop where
  pathRegexp : err.pathRegexp = some regex
  opRegexp : err.opRegexp = none
  probability : err.probability = 100

theorem selects_visited {err : ErrinjConf} {regex : CStr} (he : err.ForPaths regex)
    (hp : path ≠ E.configPath) (hm : err ∈ w.list) (op : FuseOp) :
    (∃ v ∈ w.visited E path op, v.entry = err ∧ v.Triggered E path op) ↔
      Selects E err.pathRegexp path := by
  have htrig (v : Visit) (hv : v.entry = err) :
      v.Triggered E path op ↔ Selects E err.pathRegexp path := by
    have hr : v.draw % 101 ≤ 100 := Nat.le_of_lt_succ (Nat.mod_lt _ (by decide))
    have ho : Selects E err.opRegexp (fuseOpName op) := by simp [Selects, he.opRegexp]
    unfold Visit.Triggered
    rw [hv, triggers_iff, he.probability]
    exact ⟨fun h => h.2.1, fun h => ⟨hr, h, ho⟩⟩
  unfold World.visited
  rw [if_neg hp]
  constructor
  · rintro ⟨v, -, hv, ht⟩
    exact (htrig v hv).mp ht
  · intro hs
    rw [← visits_entry w.list w.draws] at hm
    obtain ⟨v, hmv, hv⟩ := List.mem_map.mp hm
    exact ⟨v, hmv, hv, (htrig v hv).mpr hs⟩

theorem selected_iff {r : Request} {err : ErrinjConf} {regex : CStr} (he : err.ForPaths regex)
    (hm : err ∈ w.list) (hr : r.Elsewhere E.configPath) :
    SelectedByNames os E w r err ↔ r.NamesSeen E (some regex) := by
  by_cases hp : r.path = E.configPath
  · -- only the text of a symbolic link can be that path
    refine iff_of_false (fun h => ?_) fun h => ?_
    · refine h.noReload (os.loaded w.base E.configPath) ?_
      rw [hp]
      exact reloads_config w r.op
    · cases r with
      | symlink target linkpath => exact h.1 hp
      | _ => exact hr _ List.mem_cons_self hp
  · have hs : SelectedByNames os E w r err ↔
        (Selects E (some regex) r.path ↔ ∃ p ∈ r.paths, Selects E (some regex) p) := by
      rw [← he.pathRegexp, ← selects_visited he hp hm r.op]
      exact ⟨fun h => h.selects, fun h => ⟨h, no_reload hp w r.op⟩⟩
    rw [hs]
    cases r with
    | symlink target linkpath =>
      have ht : target ≠ E.configPath := hp
      simp only [Request.paths, Request.NamesSeen, List.mem_singleton, exists_eq_left, ne_eq, ht,
        not_false_eq_true, true_and]
      rfl
    | rename oldpath newpath | link oldpath newpath =>
      simp only [Request.paths, Request.NamesSeen, List.mem_cons, List.not_mem_nil, or_false,
        exists_eq_or_imp, exists_eq_left]
      exact ⟨fun h hn => h.mpr (.inr hn), fun h => ⟨.inl, fun h' => h'.elim id h⟩⟩
    | _ =>
      simp only [Request.paths, Request.NamesSeen, List.mem_singleton, exists_eq_left]

/-- The entries that trigger say so, and a `path_regexp` selects by the paths of a
request exactly if the one path decided about stands for all of them. -/
theorem path_regexp_selects_iff (os : OS β) (E : Setup) (w : World β) (r : Request)
    (err : ErrinjConf) (regex : CStr) (he : err.ForPaths regex) (hm : err ∈ w.list)
    (hr : r.Elsewhere E.configPath) :
    w.triggered os E r.path r.op =
        ((w.visited E r.path r.op).filter (·.Triggered E r.path r.op)).map (·.entry.type) ∧
      (SelectedByNames os E w r err ↔ r.NamesSeen E (some regex)) :=
  ⟨triggered_eq_visited w r.path r.op, selected_iff he hm hr⟩

def literalSetup : Setup where
  build := Linux.build fun _ => 0
  regcomp := fun regex => (0, fun s => if s = regex then 0 else 1)
  configPath := ascii "/c"

def entryB : ErrinjConf := { type := .noop, pathRegexp := some (ascii "/b"), probability := 100 }

theorem selects_old_path : SelectedByNames (posix .small) literalSetup
    (bootWorld .root (some [entryB])) (.rename (ascii "/b") (ascii "/a")) entryB := by
  have h := path_regexp_selects_iff (posix .small) literalSetup (bootWorld .root (some [entryB]))
    (.rename (ascii "/b") (ascii "/a")) entryB (ascii "/b") ⟨rfl, rfl, rfl⟩ List.mem_cons_self
    (by unfold Request.Elsewhere; decide)
  refine h.2.mpr fun _ => ?_
  rintro _ ⟨⟩
  decide

/-- An expression for the new path of `rename`, one for the text of a link, and a
link to the configuration. -/
theorem not_selected_new_path :
    ¬SelectedByNames (posix .small) literalSetup (bootWorld .root (some [entryB]))
        (.rename (ascii "/a") (ascii "/b")) entryB ∧
      ¬SelectedByNames (posix .small) literalSetup (bootWorld .root (some [entryB]))
        (.symlink (ascii "/b") (ascii "/l")) entryB ∧
      ¬SelectedByNames (posix .small) literalSetup (bootWorld .root (some [entryB]))
        (.symlink (ascii "/c") (ascii "/l")) entryB := by
  have he : entryB.ForPaths (ascii "/b") := ⟨rfl, rfl, rfl⟩
  have hm : entryB ∈ (bootWorld .root (some [entryB])).list := List.mem_cons_self
  have hb : Selects literalSetup (some (ascii "/b")) (ascii "/b") := by
    rintro _ ⟨⟩
    decide
  refine ⟨?_, ?_, ?_⟩
  · rw [selected_iff he hm (by unfold Request.Elsewhere; decide)]
    exact fun h => absurd (h hb _ rfl) (by decide)
  · rw [selected_iff he hm (by unfold Request.Elsewhere; decide)]
    exact fun h => absurd (h.2.mp hb _ rfl) (by decide)
  · rw [selected_iff he hm (by unfold Request.Elsewhere; decide)]
    exact fun h => h.1 rfl

end UnreliableFS
