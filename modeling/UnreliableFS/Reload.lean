import UnreliableFS.Posix.Straight
import UnreliableFS.Probability

/-!
# Reloading the configuration

A request about the configuration's path loads the file before its body runs, so
the list in force is one such request behind the file. A release puts it in
step, since it changes nothing about the file; a change of the name itself does
so only if the list at hand happens to be the new one.
-/

namespace UnreliableFS

open Interaction Posix

-- ---------------------------------------------------------------------------
-- Decisions
-- ---------------------------------------------------------------------------

section
variable {β : Type} {os : OS β} {E : Setup}

theorem triggered_config (w : World β) (op : FuseOp) : w.triggered os E E.configPath op = [] := by
  have hconf : lines os (configInit E.configPath) w = [] := by
    simp only [lines, configInit, Prog.ask, Prog.call_bind, Prog.done_bind, Prog.trace_call, daemon]
    by_cases ha : os.access w.base E.configPath = 0
    · simp only [ha, ↓reduceIte, Prog.trace_call]
      by_cases hn : (Conf.iniParse confOptionHandler (os.slurp w.base E.configPath) []).1 < 0
      · simp only [daemon, hn, ↓reduceIte]
        rfl
      · simp only [daemon, hn, ↓reduceIte]
        rfl
    · simp only [ha, ↓reduceIte]
      rfl
  have hrun : (configInit E.configPath).run (daemon os) w = _ := configInit_run E.configPath w
  have hrest := lines_bind (f := fun errors => Prog.call (S := daemonSig)
    (.setErrors errors) fun _ => Prog.call (S := daemonSig) .unlock fun _ => Prog.done (0 : Int)) hrun
  rw [hconf, List.nil_append] at hrest
  simp only [World.triggered, errorInject, ↓reduceIte, Prog.ask, Prog.call_bind, Prog.done_bind]
  -- the lock and the unlock are calls like the others
  exact Eq.trans rfl (hrest.trans rfl)

theorem triggered_of_none {w : World β} (he : w.errors = none) {path : CStr}
    (hp : path ≠ E.configPath) (op : FuseOp) : w.triggered os E path op = [] := by
  simp only [World.triggered, lines, errorInject, hp, ↓reduceIte, Prog.ask, Prog.call_bind,
    Prog.done_bind, Prog.trace_call, daemon, he]
  rfl

/-- The list in force; a null pointer is as good as an empty one. -/
def World.list (w : World β) : List ErrinjConf := w.errors.getD []

theorem decision_of_list {path : CStr} (hp : path ≠ E.configPath) {w w' : World β}
    (hl : w.list = w'.list) (hd : w.draws = w'.draws) (op : FuseOp) :
    w.decision os E path op = w'.decision os E path op := by
  have hempty {v : World β} (hv : v.errors = some []) : v.decision os E path op = 0 := by
    simp [World.decision, errorInject, injectEach, hp, Prog.ask, daemon, hv]
  unfold World.list at hl
  cases he : w.errors with
  | none =>
    rw [decision_of_none he]
    cases he' : w'.errors with
    | none => rw [decision_of_none he']
    | some errors =>
      have hnil : errors = [] := by simpa [he, he'] using hl.symm
      rw [hempty (hnil ▸ he')]
  | some errors =>
    cases he' : w'.errors with
    | none =>
      have hnil : errors = [] := by simpa [he, he'] using hl
      rw [hempty (hnil ▸ he), decision_of_none he']
    | some errors' =>
      have hsame : errors = errors' := by simpa [he, he'] using hl
      exact decision_congr hp (by rw [he, he', hsame]) hd op

end

-- ---------------------------------------------------------------------------
-- Keeping in step
-- ---------------------------------------------------------------------------

namespace Session

section
variable {β : Type} (os : OS β) (E : Setup) (fuel : Nat) (s : Session β) (i : Incoming)

def listAtBody : Option (List ErrinjConf) :=
  if i.request.path = E.configPath then os.loaded s.world.base E.configPath else s.world.errors

/-- The configuration file is there or not, and reads, as before. -/
structure SameConfig (b b' : β) : Prop where
  access : os.access b' E.configPath = os.access b E.configPath
  slurp : os.slurp b' E.configPath = os.slurp b E.configPath

/-- A request that does not change the configuration file. -/
def KeepsConfig : Prop := ∀ out s', serve os E fuel s i = some (out, s') →
  SameConfig os E s.world.base s'.world.base

/-- The list in force is the one the configuration file is parsed to. -/
def InStep : Prop := s.world.list = (os.loaded s.world.base E.configPath).getD []

variable {os E fuel s i} {s' s'' : Session β} {out : Int × Local}

theorem SameConfig.loaded {b b' : β} (h : SameConfig os E b b') :
    os.loaded b' E.configPath = os.loaded b E.configPath := by
  unfold OS.loaded
  rw [h.access, h.slurp]

theorem listAtBody_of_path (h : i.request.path = E.configPath) :
    s.listAtBody os E i = os.loaded s.world.base E.configPath :=
  if_pos h

theorem errors_eq_listAtBody (hs : serve os E fuel s i = some (out, s')) :
    s'.world.errors = s.listAtBody os E i :=
  serve_errors hs

theorem inStep_iff (hs : serve os E fuel s i = some (out, s')) : s'.InStep os E ↔
    (s.listAtBody os E i).getD [] = (os.loaded s'.world.base E.configPath).getD [] := by
  unfold InStep World.list
  rw [errors_eq_listAtBody hs]

theorem KeepsConfig.step {γ : Type} (f : Option (List ErrinjConf) → γ)
    (hk : s.KeepsConfig os E fuel i) (hs : serve os E fuel s i = some (out, s'))
    (h : f s.world.errors = f (os.loaded s.world.base E.configPath)) :
    f s'.world.errors = f (os.loaded s'.world.base E.configPath) := by
  rw [(hk out s' hs).loaded, errors_eq_listAtBody hs]
  unfold listAtBody
  split
  · rfl
  · exact h

theorem loaded_of_keepsConfig
    (h : Reachable (serve os E fuel) (fun s i => s.KeepsConfig os E fuel i) s s')
    (h₀ : s.world.errors = os.loaded s.world.base E.configPath) :
    s'.world.errors = os.loaded s.world.base E.configPath := by
  have hinv : s'.world.errors = os.loaded s'.world.base E.configPath ∧
      os.loaded s'.world.base E.configPath = os.loaded s.world.base E.configPath := by
    refine h.invariant (I := fun t => t.world.errors = os.loaded t.world.base E.configPath ∧
      os.loaded t.world.base E.configPath = os.loaded s.world.base E.configPath)
      (fun t i out t' ht hk hs => ⟨hk.step id hs ht.1, ?_⟩) ⟨h₀, rfl⟩
    rw [(hk out t' hs).loaded, ht.2]
  rw [hinv.1, hinv.2]

/-- Decisions by the file as it is in `b`. -/
structure DecidesBy (os : OS β) (E : Setup) (b : β) (s : Session β) : Prop where
  content : ∀ c, os.access b E.configPath = 0 → os.slurp b E.configPath = some c →
    s.world.errors = some (errinjList c) ∧ ∀ (w : World β) (path : CStr) (op : FuseOp),
      path ≠ E.configPath → w.list = errinjList c → w.draws = s.world.draws →
      s.world.decision os E path op = w.decision os E path op
  absent : os.access b E.configPath ≠ 0 → s.world.errors = some []
  unloadable : os.access b E.configPath = 0 → os.slurp b E.configPath = none →
    ∀ path op, s.world.decision os E path op = 0 ∧ s.world.triggered os E path op = []

theorem decidesBy_of_loaded {b : β} (h : s.world.errors = os.loaded b E.configPath) :
    DecidesBy os E b s where
  content c ha hc := by
    have he : s.world.errors = some (errinjList c) := by
      rw [h, OS.loaded, if_pos ha, hc]
      rfl
    refine ⟨he, fun w path op hp hl hd => decision_of_list hp ?_ hd.symm op⟩
    rw [hl, World.list, he]
    rfl
  absent ha := by rw [h, OS.loaded, if_neg ha]
  unloadable ha hc path op := by
    have he : s.world.errors = none := by
      rw [h, OS.loaded, if_pos ha, hc]
      rfl
    refine ⟨decision_of_none he path op, ?_⟩
    by_cases hp : path = E.configPath
    · rw [hp, triggered_config]
    · exact triggered_of_none he hp op

end

-- ---------------------------------------------------------------------------
-- A release
-- ---------------------------------------------------------------------------

variable {P : Platform} {E : Setup} {fuel : Nat} {s s' : Session Base} {i : Incoming}
  {out : Int × Local}

theorem sameConfig_of_tree {b b' : Base} (ht : b'.tree = b.tree) (hc : b'.cwd = b.cwd) :
    SameConfig (posix P) E b b' := by
  constructor
  · simp only [posix, ht, hc]
  · simp only [posix, Base.slurp, ht, hc]

theorem kernel_close_tree (fd : Int) (b : Base) : (kernel P (.close fd) b).2.tree = b.tree ∧
    (kernel P (.close fd) b).2.cwd = b.cwd := by
  rcases h : (kernel P (.close fd) b).1 with e | ⟨ret, data⟩
  · have hb : (kernel P (.close fd) b).2 = b := Base.enter_fail h
    rw [hb]
    exact ⟨rfl, rfl⟩
  · obtain ⟨d, -, hb⟩ := kernel_close h
    rw [hb]
    exact ⟨rfl, rfl⟩

theorem release_keeps_tree {path : CStr} {l : Local} {b b' : Base}
    (h : (((Request.release path).operation fuel).body l).run (kernel P) b = some (out, b')) :
    b'.tree = b.tree ∧ b'.cwd = b.cwd := by
  cases hfi : l.fi with
  | none =>
    simp only [Request.operation, unreliableRelease, Body.bind_apply, fh, hfi, Prog.stuck_bind,
      Prog.run_stuck] at h
    cases h
  | some fi =>
    have hcall : (Request.release path).call? l.fi = some (.close (toInt fi.fh)) := by
      rw [hfi]
      rfl
    rw [Request.run_of_call? hcall] at h
    cases h
    exact kernel_close_tree _ b

theorem release_loaded (hi : i.request = .release E.configPath)
    (hs : serve (posix P) E fuel s i = some (out, s')) :
    s'.world.errors = (posix P).loaded s.world.base E.configPath ∧
      SameConfig (posix P) E s.world.base s'.world.base := by
  have hpath : i.request.path = E.configPath := by rw [hi]; rfl
  have hc : s.code i (posix P) E = 0 := by
    unfold code
    rw [hpath, decision_config]
  obtain ⟨b', hb, hw, -⟩ := serve_executed hc hs
  rw [hi] at hb
  obtain ⟨ht, hcwd⟩ := release_keeps_tree hb
  have ht := ht.trans (atBody_tree P E s.world.base i.request.path)
  have hcwd := hcwd.trans (atBody_cwd P E s.world.base i.request.path)
  refine ⟨?_, ?_⟩
  · rw [serve_errors hs, if_pos hpath]
  · rw [hw]
    exact sameConfig_of_tree ht hcwd

end Session

/-- In any state, whatever is in force: an operation on the configuration's path
is carried out and nothing is injected into it. And from a release of it on, until
the file is changed again, everything is decided by what the file was when it was
released. -/
theorem config_installed (P : Platform) (E : Setup) (fuel : Nat) :
    (∀ (w : World Base) (r : Request) (l : Local), r.path = E.configPath →
      w.decision (posix P) E r.path r.op = 0 ∧ w.triggered (posix P) E r.path r.op = [] ∧
      (r.operation fuel).outcome (posix P) E l w =
        ((r.operation fuel).body l).run (kernel P) ((posix P).afterLoad w.base E.configPath)) ∧
    ∀ (s s₁ s₂ : Session Base) (i : Incoming) (out : Int × Local),
      i.request = .release E.configPath → s.serve (posix P) E fuel i = some (out, s₁) →
      Reachable (Session.serve (posix P) E fuel) (fun s i => s.KeepsConfig (posix P) E fuel i) s₁ s₂ →
      Session.DecidesBy (posix P) E s.world.base s₂ := by
  constructor
  · intro w r l hr
    have hd : w.decision (posix P) E (r.operation fuel).path (r.operation fuel).op = 0 := by
      rw [Request.operation_path, hr, decision_config]
    refine ⟨by rw [hr, decision_config], by rw [hr, triggered_config], ?_⟩
    rw [Operation.outcome_executed hd, Request.operation_path, hr, OS.atBody_config]
    rfl
  · intro s s₁ s₂ i out hi hs h
    obtain ⟨he, hsame⟩ := Session.release_loaded hi hs
    refine Session.decidesBy_of_loaded ?_
    rw [← hsame.loaded]
    exact Session.loaded_of_keepsConfig h (he.trans hsame.loaded.symm)

def configOpen (bytes : List UInt8) (errors : Option (List ErrinjConf)) : Session Base where
  world := { bootWorld (configTree bytes) errors with
    base := { Base.boot (configTree bytes) with
      fds := fun fd => if fd < 4 then some ⟨fd, if fd < 3 then 0 else 1, .rdwr, false⟩ else none
      nextDesc := 4 } }
  handles := fun id => if id = 0 then some ⟨{ fh := 3 }, ascii "/c", .file⟩ else none

theorem noopInForce_hundred : NoopInForce (errinjList hundred) := by
  have h : errinjList hundred = [noopEntry] := by decide
  rw [h]
  exact noopInForce_noopEntry

/-- A file that replaces every operation by a no-op takes effect at its release, for
the next request and for the one after it. -/
theorem config_installed_hundred : ∃ s₁ s₂ : Session Base, ∃ l : Local,
    s₁.serve (posix .small) (smallSetup (ascii "/c")) 0 ⟨.mkdir (ascii "/d") 0o755, 0, .zero⟩ =
      some ((0, l), s₂) ∧
    s₂.world.base.tree = s₁.world.base.tree ∧ s₂.world.errors = some (errinjList hundred) ∧
    s₂.code ⟨.mkdir (ascii "/e") 0o755, 0, .zero⟩ (posix .small) (smallSetup (ascii "/c")) =
      -ERRNO_NOOP := by
  let E : Setup := smallSetup (ascii "/c")
  let s := configOpen hundred (some [])
  let i : Incoming := ⟨.release (ascii "/c"), 0, .zero⟩
  let j : Incoming := ⟨.mkdir (ascii "/d") 0o755, 0, .zero⟩
  have hinstalled := config_installed .small E 0
  have hnoop (s' : Session Base) (path : CStr) (hp : path ≠ ascii "/c")
      (h : Session.DecidesBy (posix .small) E s.world.base s') :
      s'.code ⟨.mkdir path 0o755, 0, .zero⟩ (posix .small) E = -ERRNO_NOOP :=
    ((h.content hundred (by decide) (by decide)).2
      { s'.world with errors := some (errinjList hundred) } path .mkdir hp rfl rfl).trans
        (decision_noop hp rfl noopInForce_hundred .mkdir)
  obtain ⟨⟨out, s₁⟩, hs⟩ := Option.isSome_iff_exists.mp
    (by decide : (s.serve (posix .small) E 0 i).isSome)
  have hc := hnoop s₁ (ascii "/d") (by decide) (hinstalled.2 s s₁ s₁ i out rfl hs .refl)
  have hj : s₁.serve (posix .small) E 0 j = _ := Session.serve_replaced hc
  have hkeeps : s₁.KeepsConfig (posix .small) E 0 j := by
    intro out' s' h
    cases hj.symm.trans h
    refine Session.sameConfig_of_tree ?_ ?_
    · rw [decided_base, atBody_tree]
    · rw [decided_base, atBody_cwd]
  have hd := hinstalled.2 s s₁ _ i out rfl hs (Reachable.refl.step hkeeps hj)
  refine ⟨s₁, _, _, hj, ?_, (hd.content hundred (by decide) (by decide)).1,
    hnoop _ (ascii "/e") (by decide) hd⟩
  rw [decided_base, atBody_tree]

-- ---------------------------------------------------------------------------
-- Changes of the name
-- ---------------------------------------------------------------------------

def Request.changesNames : Request → Bool
  | .unlink .. | .rename .. | .link .. | .symlink .. => true
  | _ => false

def Readable (t : Tree) (i : Ino) (data : List UInt8) : Prop :=
  (t.node i).content = .regular data ∧ t.permits (t.node i) 4

theorem Readable.not_symlink {t : Tree} {i : Ino} {data : List UInt8} (h : Readable t i data)
    (target : CStr) : (t.node i).content ≠ .symlink target := by
  rw [h.1]
  rintro ⟨⟩

theorem Readable.congr {t t' : Tree} {i : Ino} {data : List UInt8} (h : Readable t i data)
    (hnode : t'.node i = t.node i) (hperm : t'.permits = t.permits) : Readable t' i data := by
  unfold Readable
  rw [hnode, hperm]
  exact h

section
variable (t : Tree) (cwd : Place) (path : CStr)

/-- The path's name is taken away; `rename` does not take one of two names of a
file when the other is to replace it. -/
def Request.Removes : Request → Prop
  | .unlink oldpath => oldpath = path
  | .rename oldpath newpath => oldpath = path ∧
    ∃ p i, t.find cwd false path = .ok (p, i) ∧ ∀ q, t.find cwd false newpath ≠ .ok (q, i)
  | _ => False

theorem Request.Removes.path_eq {t : Tree} {cwd : Place} {path : CStr} {r : Request}
    (h : r.Removes t cwd path) : r.path = path := by
  cases r with
  | unlink => exact h
  | rename => exact h.1
  | _ => cases h

/-- The path becomes a name of a file with these bytes, or of a link to one. -/
def Request.Brings (data : List UInt8) : Request → Prop
  | .rename oldpath newpath => newpath = path ∧ ∃ p i, t.find cwd false oldpath = .ok (p, i) ∧
    Readable t i data ∧ ∀ q, t.find cwd false path ≠ .ok (q, i)
  | .link oldpath newpath => newpath = path ∧ ∃ p i, t.find cwd false oldpath = .ok (p, i) ∧
    Readable t i data
  | .symlink target linkpath => linkpath = path ∧ ∃ p q i, t.Straight cwd path p ∧
    t.Straight p.dropLast target q ∧ t.at? q = some i ∧ Readable t i data
  | _ => False

end

namespace Session

variable {P : Platform} {E : Setup} {fuel : Nat} {s s' : Session Base} {i : Incoming}
  {out : Int × Local}

/-- The list at hand when the body of a request begins is the one to be read
from the file that its call leaves there. -/
def AlreadyThere (P : Platform) (E : Setup) (s : Session Base) (i : Incoming) : Prop :=
  ∀ c, i.request.call? none = some c → (s.listAtBody (posix P) E i).getD [] =
    ((posix P).loaded (kernel P c (s.baseAtBody i (posix P) E)).2 E.configPath).getD []

theorem base_of_changesNames (hn : i.request.changesNames = true)
    (hc : s.code i (posix P) E = 0) (hs : serve (posix P) E fuel s i = some (out, s')) :
    ∃ c, i.request.call? none = some c ∧
      s'.world.base = (kernel P c (s.baseAtBody i (posix P) E)).2 := by
  obtain ⟨b', hb, hw, -⟩ := serve_executed hc hs
  have hcall : ∃ c, i.request.call? none = some c ∧
      i.request.call? (s.locals i).fi = some c := by
    cases hreq : i.request with
    | unlink | rename | link | symlink => exact ⟨_, rfl, rfl⟩
    | _ =>
      rw [hreq] at hn
      cases hn
  obtain ⟨c, hnone, hsome⟩ := hcall
  rw [Request.run_of_call? hsome] at hb
  cases hb
  exact ⟨c, hnone, congrArg World.base hw⟩

theorem inStep_iff_alreadyThere (hn : i.request.changesNames = true)
    (hc : s.code i (posix P) E = 0) (hs : serve (posix P) E fuel s i = some (out, s')) :
    s'.InStep (posix P) E ↔ s.AlreadyThere P E i := by
  obtain ⟨c, hcall, hb⟩ := base_of_changesNames hn hc hs
  rw [inStep_iff hs, hb]
  refine ⟨fun h c' hc' => ?_, fun h => h c hcall⟩
  obtain rfl := Option.some.inj (hcall.symm.trans hc')
  exact h

theorem loaded_of_missing {b : Base} {path : CStr} {e : Errno}
    (h : b.tree.find b.cwd true path = .error e) : (posix P).loaded b path = some [] := by
  simp [OS.loaded, posix, h]

theorem loaded_of_readable {b : Base} {path : CStr} {p : Place} {j : Ino} {data : List UInt8}
    (h : b.tree.find b.cwd true path = .ok (p, j)) (hr : Readable b.tree j data) :
    (posix P).loaded b path = some (errinjList data) := by
  simp [OS.loaded, posix, Base.slurp, h, hr.1, hr.2]

theorem tree_of_call {f : Tree → Place → Except Errno Tree} {c : Sys}
    (hcall : ∀ fi, i.request.call? fi = some c)
    (hk : ∀ b, kernel P c b = b.alter (Base.silent (f b.tree b.cwd)))
    (hc : s.code i (posix P) E = 0) (hs : serve (posix P) E fuel s i = some (out, s'))
    (hrc : out.1 = 0) : f s.world.base.tree s.world.base.cwd = .ok s'.world.base.tree ∧
      s'.world.base.cwd = s.world.base.cwd := by
  obtain ⟨ret, data, hdone, -, hb, -⟩ := serve_done hc (hcall _) hs hrc
  have htree : (s.baseAtBody i (posix P) E).tree = s.world.base.tree := atBody_tree ..
  have hcwd : (s.baseAtBody i (posix P) E).cwd = s.world.base.cwd := atBody_cwd ..
  have hdone : (kernel P c (s.baseAtBody i (posix P) E)).1 = .done ret data := hdone
  have hb : s'.world.base = (kernel P c (s.baseAtBody i (posix P) E)).2 := hb
  rw [hk] at hdone hb
  obtain ⟨tree, hok, he⟩ := Base.alter_done hdone
  obtain ⟨hok, -⟩ := Base.silent_ok hok
  rw [htree, hcwd] at hok
  rw [hb, he]
  exact ⟨hok, hcwd⟩

section
variable {p : Place}

theorem missing_of_removes (hp : s.world.base.tree.Straight s.world.base.cwd E.configPath p)
    (hr : i.request.Removes s.world.base.tree s.world.base.cwd E.configPath)
    (hc : s.code i (posix P) E = 0) (hs : serve (posix P) E fuel s i = some (out, s'))
    (hrc : out.1 = 0) : (posix P).loaded s'.world.base E.configPath = some [] := by
  suffices h : s'.world.base.tree.find s'.world.base.cwd true E.configPath = .error .ENOENT from
    loaded_of_missing h
  cases hreq : i.request with
  | unlink oldpath =>
    rw [hreq] at hr
    cases hr
    obtain ⟨ht, hcwd⟩ := tree_of_call (f := fun t cwd => t.unlink cwd E.configPath)
      (fun _ => by rw [hreq]; rfl) (fun _ => rfl) hc hs hrc
    rw [hcwd]
    exact Tree.unlink_straight hp ht
  | rename oldpath newpath =>
    rw [hreq] at hr
    obtain ⟨rfl, q, j, hf, hother⟩ := hr
    obtain ⟨ht, hcwd⟩ := tree_of_call (f := fun t cwd => t.rename cwd E.configPath newpath)
      (fun _ => by rw [hreq]; rfl) (fun _ => rfl) hc hs hrc
    rw [hcwd]
    exact Tree.rename_away_straight hp hf hother ht
  | _ =>
    rw [hreq] at hr
    cases hr

theorem loaded_of_brings (hp : s.world.base.tree.Straight s.world.base.cwd E.configPath p)
    {data : List UInt8}
    (hr : i.request.Brings s.world.base.tree s.world.base.cwd E.configPath data)
    (hc : s.code i (posix P) E = 0) (hs : serve (posix P) E fuel s i = some (out, s'))
    (hrc : out.1 = 0) :
    (posix P).loaded s'.world.base E.configPath = some (errinjList data) := by
  suffices h : ∃ q j, s'.world.base.tree.find s'.world.base.cwd true E.configPath = .ok (q, j) ∧
      Readable s'.world.base.tree j data by
    obtain ⟨q, j, hf, hread⟩ := h
    exact loaded_of_readable hf hread
  cases hreq : i.request with
  | rename oldpath newpath =>
    rw [hreq] at hr
    obtain ⟨rfl, q, j, hf, hread, hother⟩ := hr
    obtain ⟨ht, hcwd⟩ := tree_of_call (f := fun t cwd => t.rename cwd oldpath E.configPath)
      (fun _ => by rw [hreq]; rfl) (fun _ => rfl) hc hs hrc
    obtain ⟨hnew, hnode, hperm⟩ := Tree.rename_onto_straight hp hf hother hread.not_symlink ht
    rw [hcwd]
    exact ⟨p, j, hnew, hread.congr hnode hperm⟩
  | link oldpath newpath =>
    rw [hreq] at hr
    obtain ⟨rfl, q, j, hf, hread⟩ := hr
    obtain ⟨ht, hcwd⟩ := tree_of_call (f := fun t cwd => t.link cwd oldpath E.configPath)
      (fun _ => by rw [hreq]; rfl) (fun _ => rfl) hc hs hrc
    obtain ⟨hnew, hnode, hperm⟩ := Tree.link_straight hp hf hread.not_symlink ht
    rw [hcwd]
    exact ⟨p, j, hnew, hread.congr hnode hperm⟩
  | symlink target linkpath =>
    rw [hreq] at hr
    obtain ⟨rfl, p', q, j, hp', hq, hj, hread⟩ := hr
    obtain ⟨ht, hcwd⟩ := tree_of_call (f := fun t cwd => t.symlink cwd target E.configPath)
      (fun _ => by rw [hreq]; rfl) (fun _ => rfl) hc hs hrc
    obtain ⟨hnew, hnode, hperm⟩ := Tree.symlink_straight hp' hq hj hread.not_symlink ht
    rw [hcwd]
    exact ⟨q, j, hnew, hread.congr hnode hperm⟩
  | _ =>
    rw [hreq] at hr
    cases hr

end

end Session

/-- After a successful change of what the configuration's path names the list in
force is that of the file now there exactly if it already was the list at hand:
when the name is taken away, if the old file has no entries, and when it is given
to another file, if that one has the entries at hand. A run of such changes, and of
requests that do not change the file, stays in step; and in step is to decide by the
file. -/
theorem names_in_step_iff (P : Platform) (E : Setup) (fuel : Nat) :
    (∀ (s s' : Session Base) (i : Incoming) (out : Int × Local), i.request.changesNames = true →
      s.code i (posix P) E = 0 → s.serve (posix P) E fuel i = some (out, s') → out.1 = 0 →
      (s'.InStep (posix P) E ↔ s.AlreadyThere P E i)) ∧
    (∀ (s s' : Session Base) (i : Incoming) (out : Int × Local) (p : Place),
      s.code i (posix P) E = 0 → s.serve (posix P) E fuel i = some (out, s') → out.1 = 0 →
      s.world.base.tree.Straight s.world.base.cwd E.configPath p →
      (i.request.Removes s.world.base.tree s.world.base.cwd E.configPath →
        (s'.InStep (posix P) E ↔
          ((posix P).loaded s.world.base E.configPath).getD [] = [])) ∧
      ∀ data, i.request.Brings s.world.base.tree s.world.base.cwd E.configPath data →
        (s'.InStep (posix P) E ↔
          (s.listAtBody (posix P) E i).getD [] = errinjList data)) ∧
    (∀ s₀ s : Session Base, s₀.InStep (posix P) E →
      Reachable (Session.serve (posix P) E fuel) (fun s i => s.KeepsConfig (posix P) E fuel i ∨
        i.request.changesNames = true ∧ s.code i (posix P) E = 0 ∧ s.AlreadyThere P E i) s₀ s →
      s.InStep (posix P) E) ∧
    ∀ s : Session Base, s.InStep (posix P) E → ∀ (w : World Base) (path : CStr) (op : FuseOp),
      path ≠ E.configPath → w.list = ((posix P).loaded s.world.base E.configPath).getD [] →
      w.draws = s.world.draws →
      s.world.decision (posix P) E path op = w.decision (posix P) E path op := by
  refine ⟨fun s s' i out hn hc hs _ => Session.inStep_iff_alreadyThere hn hc hs, ?_, ?_, ?_⟩
  · intro s s' i out p hc hs hrc hp
    refine ⟨fun hr => ?_, fun data hr => ?_⟩
    · rw [Session.inStep_iff hs, Session.missing_of_removes hp hr hc hs hrc,
        Session.listAtBody_of_path hr.path_eq]
      rfl
    · rw [Session.inStep_iff hs, Session.loaded_of_brings hp hr hc hs hrc]
      rfl
  · intro s₀ s h₀ h
    refine h.invariant (I := fun s => s.InStep (posix P) E) (fun s i out s' hin hg hs => ?_) h₀
    obtain hk | ⟨hn, hc, ht⟩ := hg
    · exact hk.step (·.getD []) hs hin
    · exact (Session.inStep_iff_alreadyThere hn hc hs).mpr ht
  · intro s hin w path op hp hl hd
    exact decision_of_list hp (Eq.trans hin hl.symm) hd.symm op

/-- An empty configuration file can be removed. -/
theorem in_step_after_unlink : ∃ (s s' : Session Base) (i : Incoming),
    s.AlreadyThere .small (smallSetup (ascii "/c")) i ∧
    (posix .small).access s'.world.base (ascii "/c") ≠ 0 ∧
    s'.InStep (posix .small) (smallSetup (ascii "/c")) := by
  let s : Session Base := ⟨bootWorld (configTree []) (some []), fun _ => none⟩
  let i : Incoming := ⟨.unlink (ascii "/c"), 0, .zero⟩
  obtain ⟨⟨out, s'⟩, hs⟩ := Option.isSome_iff_exists.mp
    (by decide : (s.serve (posix .small) (smallSetup (ascii "/c")) 0 i).isSome)
  have hgone : (s.serve (posix .small) (smallSetup (ascii "/c")) 0 i).map (fun r =>
      (r.1.1, (posix .small).access r.2.world.base (ascii "/c"))) = some (0, -1) := by decide
  rw [hs] at hgone
  obtain ⟨hrc, hgone⟩ : out.1 = 0 ∧ (posix .small).access s'.world.base (ascii "/c") = -1 := by
    simpa using hgone
  have hstraight : (configTree []).Straight [] (ascii "/c") [ascii "c"] :=
    .skip (by decide) (.inl rfl) (.name (by decide) ⟨by decide, by decide⟩)
  have hstep : s'.InStep (posix .small) (smallSetup (ascii "/c")) :=
    (((names_in_step_iff .small (smallSetup (ascii "/c")) 0).2.1 s s' i out _ (by decide) hs hrc
      hstraight).1 rfl).mpr (by decide)
  refine ⟨s, s', i, ?_, ?_, hstep⟩
  · exact ((names_in_step_iff .small (smallSetup (ascii "/c")) 0).1 s s' i out rfl (by decide) hs
      hrc).mp hstep
  · rw [hgone]
    decide

/-- A configuration that replaces every operation by a no-op goes on to do so
after it has been removed. -/
theorem not_in_step_after_unlink : ∃ s s' : Session Base, ∃ l : Local,
    s.InStep (posix .small) (smallSetup (ascii "/c")) ∧
    s.serve (posix .small) (smallSetup (ascii "/c")) 0 ⟨.unlink (ascii "/c"), 0, .zero⟩ =
      some ((0, l), s') ∧
    (posix .small).access s'.world.base (ascii "/c") ≠ 0 ∧
    s'.code ⟨.mkdir (ascii "/d") 0o755, 0, .zero⟩ (posix .small) (smallSetup (ascii "/c")) =
      -ERRNO_NOOP := by
  let s : Session Base :=
    ⟨bootWorld (configTree hundred) (some (errinjList hundred)), fun _ => none⟩
  let i : Incoming := ⟨.unlink (ascii "/c"), 0, .zero⟩
  obtain ⟨⟨⟨rc, l⟩, s'⟩, hs⟩ := Option.isSome_iff_exists.mp
    (by decide : (s.serve (posix .small) (smallSetup (ascii "/c")) 0 i).isSome)
  have hfacts : (s.serve (posix .small) (smallSetup (ascii "/c")) 0 i).map (fun r =>
      (r.1.1, (posix .small).access r.2.world.base (ascii "/c"),
        r.2.code ⟨.mkdir (ascii "/d") 0o755, 0, .zero⟩ (posix .small) (smallSetup (ascii "/c")))) =
      some (0, -1, -ERRNO_NOOP) := by decide
  rw [hs] at hfacts
  obtain ⟨hrc, hgone, hcode⟩ : rc = 0 ∧ (posix .small).access s'.world.base (ascii "/c") = -1 ∧
      s'.code ⟨.mkdir (ascii "/d") 0o755, 0, .zero⟩ (posix .small) (smallSetup (ascii "/c")) =
        -ERRNO_NOOP := by
    simpa using hfacts
  subst hrc
  refine ⟨s, s', l, ?_, hs, ?_, hcode⟩
  · show (errinjList hundred) = _
    decide
  · rw [hgone]
    decide

end UnreliableFS
