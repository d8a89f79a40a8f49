import UnreliableFS.Posix.Follow
import UnreliableFS.Session

/-!
# Owners, times and attributes

`getattr` is about a path itself and so is `utimens`, where it is absolute; but `chown`,
`setxattr` and `removexattr` make calls that follow a symbolic link at its end.
-/

namespace UnreliableFS

open Interaction Posix

namespace Request

/-- What a request makes of the object that it changes the owner, the times or an
attribute of. -/
def change? (t : Tree) : Request → Option (Node → Node)
  | .chown _ owner group => some fun n =>
    { n with
      uid := owner.getD n.uid
      gid := group.getD n.gid
      mode := Tree.modeDisowned n
      ctime := t.clock }
  | .setxattr _ name value _ => some fun n => { n with
      xattrs := (name, value) :: n.xattrs.filter fun a => a.1 ≠ name
      ctime := t.clock }
  | .removexattr _ name => some fun n => { n with
      xattrs := n.xattrs.filter fun a => a.1 ≠ name
      ctime := t.clock }
  | .utimens _ atime mtime =>
    if atime = .omit ∧ mtime = .omit then none
    else some fun n => { n with
      atime := Tree.SetTime.apply n.atime t.clock atime
      mtime := Tree.SetTime.apply n.mtime t.clock mtime
      ctime := t.clock }
  | _ => none

/-- The object its call is about. A relative path of `utimens` starts at descriptor 0. -/
def subject (b : Base) : Request → Except Errno (Place × Ino)
  | .utimens path _ _ => do
    let start ← b.placeAt 0 path
    b.tree.find start false path
  | r => b.tree.find b.cwd true r.path

/-- The object its call is about is the one `getattr` describes; or the change is none,
here and there. -/
def SameObject (r : Request) (b : Base) (f : Node → Node) : Prop :=
  ∃ p i q j, b.tree.find b.cwd false r.path = .ok (p, i) ∧ r.subject b = .ok (q, j) ∧
    (j = i ∨ f (b.tree.node i) = b.tree.node i ∧ f (b.tree.node j) = b.tree.node j)

/-- An absolute path of `utimens`, or one of the others to what is no link. -/
def Direct (r : Request) (b : Base) : Prop :=
  match r with
  | .utimens path _ _ => path.head? = some slash
  | r => ∃ p i, b.tree.find b.cwd false r.path = .ok (p, i) ∧
    ∀ target, (b.tree.node i).content ≠ .symlink target

variable {r : Request} {t : Tree} {f : Node → Node} {P : Platform} {b : Base} {q : Place} {j : Ino}

theorem change?_utimens {path : CStr} {atime mtime : SetTime}
    (h : (utimens path atime mtime).change? t = some f) : ¬(atime = .omit ∧ mtime = .omit) ∧
      f = fun n => { n with
        atime := Tree.SetTime.apply n.atime t.clock atime
        mtime := Tree.SetTime.apply n.mtime t.clock mtime
        ctime := t.clock } := by
  simp only [change?] at h
  split at h
  · cases h
  · exact ⟨‹_›, (Option.some.inj h).symm⟩

theorem change?_content (h : r.change? t = some f) (n : Node) : (f n).content = n.content := by
  cases r with
  | chown | setxattr | removexattr =>
    cases h
    rfl
  | utimens =>
    obtain ⟨-, rfl⟩ := change?_utimens h
    rfl
  | _ => cases h

theorem change?_call (h : r.change? t = some f) (fi : Option FuseFileInfo) :
    ∃ c, r.call? fi = some c := by
  cases r with
  | chown | setxattr | removexattr | utimens => exact ⟨_, rfl⟩
  | _ => cases h

theorem change?_kernel (h : r.change? b.tree = some f) {fi : Option FuseFileInfo} {c : Sys}
    (hc : r.call? fi = some c) {ret : Nat} {d : Data} (hk : (kernel P c b).1 = .done ret d) :
    ∃ p i, r.subject b = .ok (p, i) ∧ (kernel P c b).2 = { b with tree := b.tree.modify i f } := by
  cases r with
  | chown | setxattr | removexattr =>
    cases h
    cases hc
    obtain ⟨tree, hr, hb⟩ := Base.alter_done hk
    have ht := (Base.silent_ok hr).1
    simp only [Tree.chown, Tree.setxattr, Tree.removexattr, bind_ok, pure_ok] at ht
    obtain ⟨⟨p, i⟩, hf, ht⟩ := ht
    refine ⟨p, i, hf, hb.trans ?_⟩
    first
      | obtain rfl := ht; rfl
      | obtain ⟨-, -, rfl⟩ := ht; rfl
      | obtain ⟨-, -, -, -, -, -, rfl⟩ := ht; rfl
  | utimens path atime mtime =>
    obtain ⟨hsome, rfl⟩ := change?_utimens h
    cases hc
    obtain ⟨tree, hr, hb⟩ := Base.alter_done hk
    have ht := (Base.silent_ok hr).1
    simp only [Base.utimensat, if_neg hsome, Tree.utimensat, bind_ok, pure_ok] at ht
    obtain ⟨start, hstart, ⟨p, i⟩, hf, rfl⟩ := ht
    exact ⟨p, i, bind_ok.mpr ⟨start, hstart, hf⟩, hb⟩
  | _ => cases h

theorem sameObject_of_direct (hd : r.Direct b) (hs : r.subject b = .ok (q, j)) : r.SameObject b f := by
  have hfinds (hd : ∃ p i, b.tree.find b.cwd false r.path = .ok (p, i) ∧
      ∀ target, (b.tree.node i).content ≠ .symlink target)
      (hs : b.tree.find b.cwd true r.path = .ok (q, j)) :
      b.tree.find b.cwd false r.path = .ok (q, j) := by
    obtain ⟨p, i, hi, hn⟩ := hd
    cases hs.symm.trans (Tree.find_eq_of_not_symlink hi hn)
    exact hi
  have hfind : b.tree.find b.cwd false r.path = .ok (q, j) := by
    cases r with
    | utimens path atime mtime =>
      have hstart : b.placeAt 0 path = .ok b.cwd := if_pos (.inr hd)
      rw [subject, hstart] at hs
      exact hs
    | _ => exact hfinds hd hs
  exact ⟨q, j, q, j, hfind, hs, .inl rfl⟩

end Request

-- ---------------------------------------------------------------------------
-- What getattr reports
-- ---------------------------------------------------------------------------

/-- `getattr` succeeds, changes nothing and describes the object a path names. -/
def Reports (P : Platform) (b : Base) (path : CStr) (st : Stat) : Prop :=
  ∀ l, ∃ l', ((unreliableGetattr path).body l).run (kernel P) b = some ((0, l'), b) ∧ l'.stat = st

/-- Of all objects the one that `getattr` describes has been changed, and `getattr`
shows it. -/
def ChangesReported (P : Platform) (b b' : Base) (path : CStr) (f : Node → Node) : Prop :=
  ∃ st st', Reports P b path st ∧ b' = { b with tree := b.tree.modify st.ino f } ∧
    Reports P b' path st' ∧ st'.ino = st.ino ∧
      st'.uid = (f (b.tree.node st.ino)).uid ∧ st'.gid = (f (b.tree.node st.ino)).gid ∧
      st'.mode = (f (b.tree.node st.ino)).mode ∧ st'.atime = (f (b.tree.node st.ino)).atime ∧
      st'.mtime = (f (b.tree.node st.ino)).mtime ∧ st'.ctime = (f (b.tree.node st.ino)).ctime

section
variable {P : Platform} {b b' : Base} {path : CStr} {f : Node → Node} {p q : Place} {i j : Ino}
  {st : Stat}

theorem reports_iff : Reports P b path st ↔
    ∃ p i, b.tree.find b.cwd false path = .ok (p, i) ∧ st = b.tree.stat i := by
  have hrun (l : Local) : ((unreliableGetattr path).body l).run (kernel P) b =
      (forward (.lstat path) { l with stat := {} }).run (kernel P) b := rfl
  cases hf : b.tree.find b.cwd false path with
  | error e =>
    have hk : kernel P (.lstat path) b = (.fail e, b) := by
      simp only [kernel, hf]
      rfl
    refine iff_of_false (fun h => ?_) (by simp)
    obtain ⟨l', hl, -⟩ := h .zero
    rw [hrun, forward_run_fail (congrArg Prod.fst hk)] at hl
    have hret : -(e.code : Int) = 0 := congrArg (·.1.1) (Option.some.inj hl)
    have hpos := e.pos
    omega
  | ok r =>
    obtain ⟨p, i⟩ := r
    have hk : kernel P (.lstat path) b = (.done 0 (.stat (b.tree.stat i)), b) := by
      simp only [kernel, hf]
      rfl
    have hget (l : Local) : ((unreliableGetattr path).body l).run (kernel P) b =
        some ((0, { l with stat := b.tree.stat i }), b) := by
      rw [hrun, forward_run_done (congrArg Prod.fst hk), hk]
      rfl
    constructor
    · intro h
      obtain ⟨l', hl, rfl⟩ := h .zero
      cases (hget .zero).symm.trans hl
      exact ⟨p, i, rfl, rfl⟩
    · rintro ⟨_, _, ⟨⟩, rfl⟩ l
      exact ⟨_, hget l, rfl⟩

theorem changesReported_iff (hf : ∀ n, (f n).content = n.content) {i : Ino}
    (hi : b.tree.find b.cwd false path = .ok (p, i)) (j : Ino) :
    ChangesReported P b { b with tree := b.tree.modify j f } path f ↔
      j = i ∨ f (b.tree.node i) = b.tree.node i ∧ f (b.tree.node j) = b.tree.node j := by
  rw [← Tree.modify_eq_iff]
  constructor
  · rintro ⟨st, st', hst, hb, -⟩
    obtain ⟨p', i', hi', rfl⟩ := reports_iff.mp hst
    cases hi.symm.trans hi'
    exact congrArg Base.tree hb
  · intro h
    rw [h]
    refine ⟨b.tree.stat i, (b.tree.modify i f).stat i, reports_iff.mpr ⟨p, i, hi, rfl⟩, rfl,
      reports_iff.mpr ⟨p, i, (Tree.find_modify b.tree i hf).trans hi, rfl⟩, rfl, ?_⟩
    simp [Tree.stat, Tree.modify]

theorem reported_iff_sameObject {r : Request} (hf : ∀ n, (f n).content = n.content)
    (hj : r.subject b = .ok (q, j)) :
    ChangesReported P b { b with tree := b.tree.modify j f } r.path f ↔ r.SameObject b f := by
  constructor
  · intro h
    obtain ⟨st, st', hst, h⟩ := h
    obtain ⟨p, i, hi, -⟩ := reports_iff.mp hst
    exact ⟨p, i, q, j, hi, hj, (changesReported_iff hf hi j).mp ⟨st, st', hst, h⟩⟩
  · rintro ⟨p, i, q', j', hi, hj', h⟩
    cases hj.symm.trans hj'
    exact (changesReported_iff hf hi j).mpr h

theorem serve_change {E : Setup} {fuel : Nat} {s s' : Session Base} {inc : Incoming} {l' : Local}
    (hf : inc.request.change? (s.baseAtBody inc (posix P) E).tree = some f)
    (hc : s.code inc (posix P) E = 0)
    (h : Session.serve (posix P) E fuel s inc = some ((0, l'), s')) :
    ∃ p i, inc.request.subject (s.baseAtBody inc (posix P) E) = .ok (p, i) ∧
      s'.world.base = { s.baseAtBody inc (posix P) E with
        tree := (s.baseAtBody inc (posix P) E).tree.modify i f } := by
  obtain ⟨c, hcall⟩ := Request.change?_call hf (s.locals inc).fi
  obtain ⟨ret, d, hk, -, hb, -⟩ := Session.serve_done hc hcall h rfl
  obtain ⟨p, i, hfind, hbase⟩ := Request.change?_kernel hf hcall hk
  exact ⟨p, i, hfind, hb.trans hbase⟩

theorem serve_omitted {E : Setup} {fuel : Nat} {s s' : Session Base} {inc : Incoming} {l' : Local}
    {path : CStr} (hr : inc.request = .utimens path .omit .omit) (hc : s.code inc (posix P) E = 0)
    (h : Session.serve (posix P) E fuel s inc = some ((0, l'), s')) :
    s'.world.base = s.baseAtBody inc (posix P) E := by
  have hcall : inc.request.call? (s.locals inc).fi = some (.utimensat 0 path .omit .omit) := by
    rw [hr]
    rfl
  obtain ⟨ret, d, -, -, hb, -⟩ := Session.serve_done hc hcall h rfl
  exact hb

theorem sameObject_atBody {r : Request} (P : Platform) (E : Setup) (b : Base) (path : CStr) :
    (r.SameObject ((posix P).atBody E b path) f ↔ r.SameObject b f) ∧
      (r.Direct ((posix P).atBody E b path) ↔ r.Direct b) := by
  obtain ⟨locks, h⟩ := posix_atBody P E b path
  rw [h]
  exact ⟨.rfl, .rfl⟩

end

/-- A successful change of the owner, the times or an attribute is one of the object
that `getattr` describes, and of no other, exactly if that is what its call is about:
for `utimens` with an absolute path it is, for the others if no link at the end of the
path leads elsewhere. With both times left as they are there is no change. -/
theorem metadata_reported_iff (P : Platform) (E : Setup) (fuel : Nat) (s s' : Session Base)
    (inc : Incoming) (l' : Local) (hc : s.code inc (posix P) E = 0)
    (h : Session.serve (posix P) E fuel s inc = some ((0, l'), s')) :
    (∀ f, inc.request.change? s.world.base.tree = some f →
      (ChangesReported P (s.baseAtBody inc (posix P) E) s'.world.base inc.request.path f ↔
        inc.request.SameObject s.world.base f) ∧
      (inc.request.Direct s.world.base → inc.request.SameObject s.world.base f)) ∧
    ∀ path, inc.request = .utimens path .omit .omit →
      s'.world.base = s.baseAtBody inc (posix P) E := by
  refine ⟨fun f hf => ?_, fun path hr => serve_omitted hr hc h⟩
  obtain ⟨hsame, hdirect⟩ := sameObject_atBody (f := f) (r := inc.request) P E s.world.base
    inc.request.path
  have htree : (s.baseAtBody inc (posix P) E).tree = s.world.base.tree := atBody_tree P E ..
  rw [← htree] at hf
  obtain ⟨q, j, hj, hb⟩ := serve_change hf hc h
  rw [hb, ← hsame, ← hdirect]
  exact ⟨reported_iff_sameObject (Request.change?_content hf) hj,
    fun hd => Request.sameObject_of_direct hd hj⟩

def linkTree : Tree :=
  (Tree.root.add [ascii "f"] { content := .regular [] }).add [ascii "l"]
    { content := .symlink (ascii "/f") }

def linkSession : Session Base := ⟨bootWorld linkTree none, fun _ => none⟩

def chownTo (path : CStr) : Incoming := ⟨.chown path (some 5) none, 0, .zero⟩

theorem chown_served (path : CStr)
    (h : (Session.serve (posix .small) (smallSetup (ascii "/c")) 0 linkSession (chownTo path)).map
      (·.1.1) = some 0) : ∃ l' s', Session.serve (posix .small) (smallSetup (ascii "/c")) 0 linkSession
        (chownTo path) = some ((0, l'), s') := by
  obtain ⟨⟨⟨rc, l'⟩, s'⟩, hs, hrc⟩ := Option.map_eq_some_iff.mp h
  cases hrc
  exact ⟨l', s', hs⟩

def owned (n : Node) : Node := { n with uid := 5, gid := n.gid, mode := Tree.modeDisowned n, ctime := 0 }

theorem chown_file_reported : ∃ s' : Session Base,
    ChangesReported .small linkSession.world.base s'.world.base (ascii "/f") owned := by
  obtain ⟨l', s', hs⟩ := chown_served (ascii "/f") (by decide)
  have h := metadata_reported_iff .small (smallSetup (ascii "/c")) 0 linkSession s'
    (chownTo (ascii "/f")) l' (by decide) hs
  obtain ⟨hiff, hdirect⟩ := h.1 owned rfl
  exact ⟨s', hiff.mpr (hdirect ⟨[ascii "f"], 1, rfl, by rintro _ ⟨⟩⟩)⟩

/-- The owner of a link: that of the file is changed. -/
theorem chown_link_not_reported : ∃ (l' : Local) (s' : Session Base),
    Session.serve (posix .small) (smallSetup (ascii "/c")) 0 linkSession (chownTo (ascii "/l")) =
      some ((0, l'), s') ∧
    ¬ChangesReported .small linkSession.world.base s'.world.base (ascii "/l") owned := by
  obtain ⟨l', s', hs⟩ := chown_served (ascii "/l") (by decide)
  refine ⟨l', s', hs, fun hr => ?_⟩
  have h := metadata_reported_iff .small (smallSetup (ascii "/c")) 0 linkSession s'
    (chownTo (ascii "/l")) l' (by decide) hs
  obtain ⟨p, i, q, j, hi, hj, h'⟩ := (h.1 owned rfl).1.mp hr
  obtain ⟨-, rfl⟩ : _ ∧ 2 = i :=
    Prod.mk.inj (Except.ok.inj ((rfl : _ = Except.ok ([ascii "l"], 2)).symm.trans hi))
  obtain ⟨-, rfl⟩ : _ ∧ 1 = j :=
    Prod.mk.inj (Except.ok.inj ((rfl : _ = Except.ok ([ascii "f"], 1)).symm.trans hj))
  obtain h' | h' := h'
  · cases h'
  · exact absurd (congrArg Node.uid h'.1) (by decide)

end UnreliableFS
