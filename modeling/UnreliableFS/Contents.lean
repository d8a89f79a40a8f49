import UnreliableFS.Handles
import UnreliableFS.Posix.Grow

/-!
# The contents of files

Runs of opens, reads, writes and truncations against a reference that keeps one
array of bytes per file. Which file a path names is the base's to say; what is
in it, and what a handle reads, is the reference's.
-/

namespace UnreliableFS

open Extents Interaction Posix

-- ---------------------------------------------------------------------------
-- The reference
-- ---------------------------------------------------------------------------

structure Arrays where
  array : Ino → Extent UInt8 0
  handle : Nat → Option Ino

namespace Arrays

variable (m : Arrays) (named : Option Ino) (i : Incoming)

/-- What a request makes of the bytes of its file. -/
def edit (e : Extent UInt8 0) : Request → Extent UInt8 0
  | .open _ flags | .create _ flags _ => if flags.trunc then .empty else e
  | .write _ data offset => e.write offset.toNat data
  | .truncate _ length | .ftruncate _ length => e.resize length.toNat
  | _ => e

def fileOf : Option Ino :=
  match i.request with
  | .open .. | .create .. | .truncate .. => named
  | _ => m.handle i.handle

def handlesAfter : Nat → Option Ino :=
  if i.request.opens?.isSome then Function.update m.handle i.handle named
  else if i.request.closes then Function.update m.handle i.handle none
  else m.handle

def after : Arrays where
  array := match m.fileOf named i with
    | some f => Function.update m.array f (edit (m.array f) i.request)
    | none => m.array
  handle := m.handlesAfter named i

variable {m named i} {f : Ino}

theorem after_array (h : m.fileOf named i = some f) : (m.after named i).array =
    Function.update m.array f (edit (m.array f) i.request) := by
  simp only [after, h]

theorem after_other (h : m.fileOf named i ≠ some f) : (m.after named i).array f = m.array f := by
  unfold after
  cases hf : m.fileOf named i with
  | none => rfl
  | some g =>
    have hne : f ≠ g := by
      rintro rfl
      exact h hf
    exact Function.update_of_ne hne ..

end Arrays

-- ---------------------------------------------------------------------------
-- The runs
-- ---------------------------------------------------------------------------

/-- The file the path of a request leads to, made by the request if need be. -/
def Posix.Base.named (b : Base) : Request → Option Ino
  | .open path flags => (b.tree.openFile b.cwd path flags 0).toOption.map (·.2)
  | .create path flags mode => (b.tree.openFile b.cwd path flags mode).toOption.map (·.2)
  | .truncate path _ => (b.tree.find b.cwd true path).toOption.map (·.2)
  | _ => none

/-- A call that has succeeded and moved all its bytes. A read that moved less
than one call can has met the end of the file. -/
def inFull {σ : Type} (e : Event sysSig σ) : Bool :=
  match e.call, (e.reply : SysReply) with
  | _, .fail _ => false
  | .pread _ size _, .done ret _ => ret = size || ret < Tree.MAX_RW_COUNT
  | .pwrite _ data _, .done ret _ => ret = data.length
  | _, .done .. => true

theorem isDone_of_inFull {σ : Type} {e : Event sysSig σ} (h : inFull e = true) :
    SysReply.isDone e.reply = true := by
  obtain ⟨s, c, r⟩ := e
  cases r with
  | fail err => cases c <;> cases h
  | done ret d => rfl

def Request.onContents : Request → Bool
  | .create .. | .open .. | .read .. | .write .. | .truncate .. | .ftruncate .. | .release .. => true
  | _ => false

structure Mirrored where
  session : Session Base
  arrays : Arrays

namespace Mirrored

def start (w : World Base) : Mirrored := ⟨⟨w, fun _ => none⟩, ⟨w.base.tree.array, fun _ => none⟩⟩

variable (P : Platform) (E : Setup) (fuel : Nat)

def base (t : Mirrored) : Base := t.session.world.base

def serve : Machine Mirrored Incoming (Int × Local) := fun t i =>
  (t.session.serve (posix P) E fuel i).map fun r =>
    (r.1, ⟨r.2, t.arrays.after (t.base.named i.request) i⟩)

def delivered (t : Mirrored) (i : Incoming) (bytes : List UInt8) : Int × Local :=
  (bytes.length, (t.session.locals i).store (.bytes bytes))

/-- No `O_APPEND`, and `ftruncate` comes with the path its handle was opened by. -/
structure Plain (t : Mirrored) (i : Incoming) : Prop where
  proper : t.session.Proper i
  inRun : i.request.onContents = true
  noAppend : ∀ flags, i.request.opens? = some flags → flags.append = false
  ownPath : ∀ path length h, i.request = .ftruncate path length →
    t.session.handles i.handle = some h → path = h.path

/-- No fault and no short transfer, either. -/
structure Guarded (t : Mirrored) (i : Incoming) : Prop extends Plain t i where
  noFault : t.session.code i (posix P) E = 0
  inFull : ∀ e ∈ t.session.calls i (posix P) E fuel, inFull e = true

end Mirrored

-- ---------------------------------------------------------------------------
-- What the calls do
-- ---------------------------------------------------------------------------

section
variable {P : Platform} {b : Base} {d : Desc} {ret : Nat} {data : Data} {fd : Int}

theorem pread_array {size : Nat} {offset : Int} (hd : b.desc fd = .ok d) (hi : d.ino < b.tree.next)
    (h : (kernel P (.pread fd size offset) b).1 = .done ret data)
    (hfull : ret = size ∨ ret < Tree.MAX_RW_COUNT) : ret ≤ Tree.MAX_RW_COUNT ∧
      ret = ((b.tree.array d.ino).read offset.toNat size).length ∧
      data = .bytes ((b.tree.array d.ino).read offset.toNat size) := by
  have hr := Base.inspect_done h
  simp only [Base.pread, bind_ok, pure_ok] at hr
  obtain ⟨d', hd', -, -, -, -, bytes, hbytes, he⟩ := hr
  cases hd.symm.trans hd'
  have ha := Tree.array_regular hi (Tree.dataOf_ok hbytes)
  cases he
  rw [← read_ofList, ← ha] at hfull ⊢
  have hle : ((b.tree.array d.ino).read offset.toNat (min size Tree.MAX_RW_COUNT)).length ≤
      Tree.MAX_RW_COUNT := by
    rw [Extent.length_read]
    omega
  rw [Extent.read_min hfull] at hle ⊢
  exact ⟨hle, rfl, rfl⟩

theorem pwrite_array {bytes : List UInt8} {offset : Int} (hd : b.desc fd = .ok d)
    (hi : d.ino < b.tree.next) (happend : d.append = false)
    (h : (kernel P (.pwrite fd bytes offset) b).1 = .done ret data) (hfull : ret = bytes.length) :
    ∃ tree, (kernel P (.pwrite fd bytes offset) b).2 = { b with tree } ∧ b.tree.Grows tree ∧
      tree.array = Function.update b.tree.array d.ino
        ((b.tree.array d.ino).write offset.toNat bytes) := by
  obtain ⟨d', old, hd', hold, hlen, hb⟩ := kernel_pwrite h
  cases hd.symm.trans hd'
  have hc := Tree.dataOf_ok hold
  have htake : bytes.take Tree.MAX_RW_COUNT = bytes := by
    rw [hlen, List.length_take] at hfull
    exact List.take_of_length_le (by omega)
  simp only [happend, Bool.false_eq_true, ↓reduceIte, htake] at hb
  refine ⟨_, hb, .setData (by rw [hc]; rfl) _, ?_⟩
  rw [Tree.array_setData hi, Tree.array_regular hi hc, ofList_writeAt]

theorem truncate_array {path : CStr} {length : Int}
    (h : (kernel P (.truncate path length) b).1 = .done ret data) :
    ∃ p i tree, b.tree.find b.cwd true path = .ok (p, i) ∧
      (kernel P (.truncate path length) b).2 = { b with tree } ∧ b.tree.Grows tree ∧
      tree.array = Function.update b.tree.array i ((b.tree.array i).resize length.toNat) := by
  obtain ⟨p, i, old, -, hf, hold, hb⟩ := kernel_truncate h
  have hi := Tree.at?_lt (Tree.find_ok hf).2
  have hc := Tree.dataOf_ok hold
  refine ⟨p, i, _, hf, hb, .setData (by rw [hc]; rfl) _, ?_⟩
  rw [Tree.array_setData hi, Tree.array_regular hi hc, ofList_resize]

end

-- ---------------------------------------------------------------------------
-- The invariant
-- ---------------------------------------------------------------------------

/-- A handle is on a file: its descriptor is, and so is the path it was opened by,
for good. -/
structure OpenOn (b : Base) (h : Handle) (d : Desc) : Prop where
  small : h.fi.fh < 2 ^ 31
  desc : b.fds h.fi.fh = some d
  noAppend : d.append = false
  there : d.ino < b.tree.next
  names : b.tree.Names b.cwd h.path d.ino

structure ContentInv (t : Mirrored) : Prop where
  array : t.arrays.array = t.base.tree.array
  handle : ∀ id h, t.session.handles id = some h →
    ∃ d, OpenOn t.base h d ∧ t.arrays.handle id = some d.ino
  distinct : ∀ id id' h h', t.session.handles id = some h → t.session.handles id' = some h' →
    h.fi.fh = h'.fi.fh → id = id'

theorem OpenOn.fh_eq {b : Base} {h : Handle} {d : Desc} (ho : OpenOn b h d) :
    toInt h.fi.fh = h.fi.fh :=
  have hlt := ho.small
  toInt_of_small (by omega) (by omega)

theorem OpenOn.desc_ok {b : Base} {h : Handle} {d : Desc} (ho : OpenOn b h d) :
    b.desc (toInt h.fi.fh) = .ok d := by
  rw [Base.desc_ok, ho.fh_eq, Int.toNat_natCast]
  exact ⟨by omega, ho.desc⟩

theorem OpenOn.grows {b b' : Base} {h : Handle} {d : Desc} (ho : OpenOn b h d)
    (hfd : b'.fds h.fi.fh = b.fds h.fi.fh) (hcwd : b'.cwd = b.cwd) (hg : b.tree.Grows b'.tree) :
    OpenOn b' h d where
  small := ho.small
  desc := hfd.trans ho.desc
  noAppend := ho.noAppend
  there := Nat.lt_of_lt_of_le ho.there hg.next
  names := by
    rw [hcwd]
    exact ho.names.grows hg

namespace ContentInv

variable {t t' : Mirrored}

theorem start (w : World Base) : ContentInv (Mirrored.start w) where
  array := rfl
  handle := by rintro _ _ ⟨⟩
  distinct := by rintro _ _ _ _ ⟨⟩

theorem edited (hi : ContentInv t) (hh : t'.session.handles = t.session.handles)
    (hf : t'.arrays.handle = t.arrays.handle) (hfds : t'.base.fds = t.base.fds)
    (hcwd : t'.base.cwd = t.base.cwd) (hg : t.base.tree.Grows t'.base.tree)
    (ha : t'.arrays.array = t'.base.tree.array) : ContentInv t' where
  array := ha
  handle := by
    intro id h hid
    rw [hh] at hid
    obtain ⟨d, ho, hd⟩ := hi.handle id h hid
    exact ⟨d, ho.grows (by rw [hfds]) hcwd hg, by rw [hf, hd]⟩
  distinct := by
    rw [hh]
    exact hi.distinct

theorem opened (hi : ContentInv t) {id : Nat} {h : Handle} {d : Desc}
    (hfree : t.base.fds h.fi.fh = none)
    (hh : t'.session.handles = Function.update t.session.handles id (some h))
    (hf : t'.arrays.handle = Function.update t.arrays.handle id (some d.ino))
    (hfds : t'.base.fds = Function.update t.base.fds h.fi.fh (some d))
    (hcwd : t'.base.cwd = t.base.cwd) (hg : t.base.tree.Grows t'.base.tree)
    (ha : t'.arrays.array = t'.base.tree.array) (ho : OpenOn t'.base h d) : ContentInv t' := by
  have hcases {id' : Nat} {g : Handle} (hg : t'.session.handles id' = some g) :
      (id' = id ∧ h = g) ∨ (id' ≠ id ∧ t.session.handles id' = some g) := by
    rw [hh] at hg
    exact update_some_eq.mp hg
  -- the descriptor was free, so no other handle is on it
  have hne {id' : Nat} {g : Handle} (hg : t.session.handles id' = some g) :
      g.fi.fh ≠ h.fi.fh := by
    intro he
    obtain ⟨d', ho', -⟩ := hi.handle id' g hg
    have hd := ho'.desc
    rw [he, hfree] at hd
    cases hd
  constructor
  case array => exact ha
  case handle =>
    intro id' g hg'
    obtain ⟨rfl, rfl⟩ | ⟨hid, hg'⟩ := hcases hg'
    · exact ⟨d, ho, by rw [hf, Function.update_self]⟩
    · obtain ⟨d', ho', hd'⟩ := hi.handle id' g hg'
      refine ⟨d', ho'.grows ?_ hcwd hg, ?_⟩
      · rw [hfds, Function.update_of_ne (hne hg')]
      · rw [hf, Function.update_of_ne hid, hd']
  case distinct =>
    intro id₁ id₂ g₁ g₂ hg₁ hg₂ he
    obtain ⟨rfl, rfl⟩ | ⟨-, hg₁⟩ := hcases hg₁
    · obtain ⟨rfl, rfl⟩ | ⟨-, hg₂⟩ := hcases hg₂
      · rfl
      · exact absurd he.symm (hne hg₂)
    · obtain ⟨rfl, rfl⟩ | ⟨-, hg₂⟩ := hcases hg₂
      · exact absurd he (hne hg₁)
      · exact hi.distinct id₁ id₂ g₁ g₂ hg₁ hg₂ he

theorem closed (hi : ContentInv t) {id : Nat} {h : Handle} (hid : t.session.handles id = some h)
    (hh : t'.session.handles = Function.update t.session.handles id none)
    (hf : t'.arrays.handle = Function.update t.arrays.handle id none)
    (hfds : t'.base.fds = Function.update t.base.fds h.fi.fh none)
    (hcwd : t'.base.cwd = t.base.cwd) (htree : t'.base.tree = t.base.tree)
    (ha : t'.arrays.array = t'.base.tree.array) : ContentInv t' := by
  have hcases {id' : Nat} {g : Handle} (hg : t'.session.handles id' = some g) :
      id' ≠ id ∧ t.session.handles id' = some g := by
    rw [hh] at hg
    exact update_none_eq.mp hg
  constructor
  case array => exact ha
  case handle =>
    intro id' g hg
    obtain ⟨hne, hg⟩ := hcases hg
    obtain ⟨d, ho, hd⟩ := hi.handle id' g hg
    refine ⟨d, ho.grows ?_ hcwd (htree ▸ .refl _), ?_⟩
    · rw [hfds, Function.update_of_ne]
      exact fun he => hne (hi.distinct id' id g h hg hid he)
    · rw [hf, Function.update_of_ne hne, hd]
  case distinct =>
    intro id₁ id₂ g₁ g₂ hg₁ hg₂
    exact hi.distinct id₁ id₂ g₁ g₂ (hcases hg₁).2 (hcases hg₂).2

end ContentInv

-- ---------------------------------------------------------------------------
-- The step
-- ---------------------------------------------------------------------------

structure Performed (P : Platform) (t : Mirrored) (i : Incoming) (c : Sys) (ret : Nat) (data : Data)
    (out : Int × Local) (t' : Mirrored) : Prop where
  reply : (kernel P c t.base).1 = .done ret data
  inFull : inFull (⟨t.base, c, SysReply.done ret data⟩ : Event sysSig Base) = true
  base : t'.base = (kernel P c t.base).2
  result : out = i.request.succeed ((i.request.prepare (t.session.locals i)).store data) ret
  handles : t'.session.handles = t.session.handlesAfter i out.1 out.2.fi
  arrays : t'.arrays = t.arrays.after (t.base.named i.request) i

def Mirrored.atBody (P : Platform) (E : Setup) (t : Mirrored) (i : Incoming) : Mirrored :=
  ⟨t.session.atBody i (posix P) E, t.arrays⟩

section
variable {P : Platform} {E : Setup} {fuel : Nat} {t t' : Mirrored} {i : Incoming}
  {out : Int × Local} {c : Sys} {ret : Nat} {data : Data}

theorem ContentInv.atBody (hi : ContentInv t) : ContentInv (t.atBody P E i) := by
  have htree : (t.atBody P E i).base.tree = t.base.tree := atBody_tree P E _ _
  refine hi.edited rfl rfl (atBody_fds P E _ _) (atBody_cwd P E _ _) (htree ▸ .refl _) ?_
  rw [htree]
  exact hi.array

theorem Mirrored.Plain.atBody (ha : t.Plain i) : (t.atBody P E i).Plain i :=
  ⟨⟨ha.proper.fresh, ha.proper.live⟩, ha.inRun, ha.noAppend, ha.ownPath⟩

theorem named_atBody (r : Request) : (t.atBody P E i).base.named r = t.base.named r := by
  have htree : (t.atBody P E i).base.tree = t.base.tree := atBody_tree P E _ _
  have hcwd : (t.atBody P E i).base.cwd = t.base.cwd := atBody_cwd P E _ _
  unfold Base.named
  rw [htree, hcwd]

theorem Mirrored.Guarded.performs (hg : t.Guarded P E fuel i)
    (hcall : i.request.call? (t.session.locals i).fi = some c) : ∃ ret data out t',
      t.serve P E fuel i = some (out, t') ∧ Performed P (t.atBody P E i) i c ret data out t' := by
  have hcalls : t.session.calls i (posix P) E fuel =
      [⟨(t.atBody P E i).base, c, (kernel P c (t.atBody P E i).base).1⟩] := by
    rw [Session.calls_executed hg.noFault]
    exact Request.trace_of_call? hcall
  have hfull := hg.inFull _ (hcalls ▸ List.mem_singleton_self _)
  cases hr : (kernel P c (t.atBody P E i).base).1 with
  | fail e =>
    have hdone := isDone_of_inFull hfull
    rw [hr] at hdone
    cases hdone
  | done ret data =>
    rw [hr] at hfull
    cases hs : t.serve P E fuel i with
    | none =>
      unfold Mirrored.serve at hs
      rw [Session.serve_body hg.noFault, Request.run_of_call? hcall] at hs
      cases hs
    | some r =>
      unfold Mirrored.serve at hs
      rw [Session.serve_body hg.noFault, Request.run_of_call? hcall] at hs
      cases hs
      refine ⟨ret, data, _, _, rfl, hr, hfull, rfl, ?_, rfl, ?_⟩
      · change i.request.finish _ (kernel P c (t.atBody P E i).base).1 = _
        rw [hr]
        rfl
      · rw [named_atBody]
        rfl

theorem ContentInv.onHandle (hi : ContentInv t) (hg : t.Plain i)
    (hk : i.request.handleKind? = some .file) :
    ∃ h d, t.session.handles i.handle = some h ∧ (t.session.locals i).fi = some h.fi ∧
      OpenOn t.base h d ∧ t.arrays.handle i.handle = some d.ino := by
  obtain ⟨h, hid, -, hfi⟩ := hg.proper.fileInfo hk
  obtain ⟨d, ho, hd⟩ := hi.handle i.handle h hid
  exact ⟨h, d, hid, hfi, ho, hd⟩

theorem OpenOn.onDescriptor {b : Base} {h : Handle} {d : Desc} (ho : OpenOn b h d) (io : Int → Sys) :
    Request.onDescriptor (some h.fi) io = some (io (toInt h.fi.fh)) := by
  have hfd : ¬toInt h.fi.fh = -1 := by
    rw [ho.fh_eq]
    omega
  simp [Request.onDescriptor, hfd]

theorem ContentInv.call (hi : ContentInv t) (hg : t.Plain i) :
    ∃ c, i.request.call? (t.session.locals i).fi = some c := by
  have hin := hg.inRun
  have hhandle := hi.onHandle hg
  cases hreq : i.request with
  | «open» path flags | create path flags mode =>
    simp [Session.locals, Session.fileInfo, hreq, Request.opens?, Request.call?]
  | truncate | ftruncate => exact ⟨_, rfl⟩
  | read | write =>
    obtain ⟨h, d, -, hfi, ho, -⟩ := hhandle (by rw [hreq]; rfl)
    simp [hfi, Request.call?, ho.onDescriptor]
  | release =>
    obtain ⟨h, d, -, hfi, -⟩ := hhandle (by rw [hreq]; rfl)
    rw [hfi]
    exact ⟨_, rfl⟩
  | _ =>
    rw [hreq] at hin
    cases hin

theorem ContentInv.performed_open (hi : ContentInv t) (hg : t.Plain i) {path : CStr}
    {flags : OpenFlags} {mode : Nat} (hp : Performed P t i (.open path flags mode) ret data out t')
    (hopen : i.request.opens? = some flags) (hpath : i.request.path = path)
    (hnamed : t.base.named i.request =
      (t.base.tree.openFile t.base.cwd path flags mode).toOption.map (·.2))
    (hfile : t.arrays.fileOf (t.base.named i.request) i = t.base.named i.request)
    (hedit : ∀ e, Arrays.edit e i.request = if flags.trunc then .empty else e) : ContentInv t' := by
  obtain ⟨hfree, tree, ino, hf, hb⟩ := kernel_open hp.reply
  obtain ⟨hnone, hlt⟩ := Base.freeFd_ok hfree
  have hle := t.base.nofile_le
  obtain ⟨hgrows, hthere, hnames, harray⟩ := Tree.openFile_ok hf
  obtain ⟨-, hh⟩ := Session.handlesAfter_opened hopen (by omega) hp.result
  have hbase := hp.base.trans hb
  have hn : t.base.named i.request = some ino := by
    rw [hnamed, hf]
    rfl
  refine hi.opened (d := ⟨t.base.nextDesc, ino, flags.acc, flags.append⟩) hnone (hp.handles.trans hh)
    ?_ (by rw [hbase]; rfl) (by rw [hbase]; rfl) (by rw [hbase]; exact hgrows) ?_ ?_
  · rw [hp.arrays]
    simp [Arrays.after, Arrays.handlesAfter, hopen, hn]
  · rw [hp.arrays, Arrays.after_array (hfile.trans hn), hedit, hi.array, hbase]
    exact harray.symm
  · rw [hbase]
    exact ⟨by show ret < _; omega, Function.update_self .., hg.noAppend flags hopen, hthere,
      hpath ▸ hnames⟩

theorem ContentInv.performed_release (hi : ContentInv t) (hg : t.Plain i) {path : CStr}
    (hreq : i.request = .release path) (hcall : i.request.call? (t.session.locals i).fi = some c)
    (hp : Performed P t i c ret data out t') : ContentInv t' := by
  obtain ⟨h, d, hid, hfi, ho, hd⟩ := hi.onHandle hg (by rw [hreq]; rfl)
  have hopen : i.request.opens? = none := by rw [hreq]; rfl
  rw [hreq, hfi] at hcall
  cases hcall
  obtain ⟨d', -, hb⟩ := kernel_close hp.reply
  have hbase := hp.base.trans hb
  rw [ho.fh_eq, Int.toNat_natCast] at hbase
  refine hi.closed hid ?_ ?_ (by rw [hbase]; rfl) (by rw [hbase]; rfl) (by rw [hbase]; rfl) ?_
  · rw [hp.handles, Session.handlesAfter_closed hopen, hreq]
    rfl
  · rw [hp.arrays]
    simp [Arrays.after, Arrays.handlesAfter, hreq, Request.opens?, Request.closes]
  · have hfile : t.arrays.fileOf (t.base.named i.request) i = some d.ino := by
      simp only [Arrays.fileOf, hreq, hd]
    rw [hp.arrays, Arrays.after_array hfile, hreq, hi.array, hbase]
    exact Function.update_eq_self ..

theorem ContentInv.performed_edit (hi : ContentInv t) (hopen : i.request.opens? = none)
    (hclose : i.request.closes = false) (hp : Performed P t i c ret data out t') {tree : Tree}
    {f : Ino} (hb : (kernel P c t.base).2 = { t.base with tree }) (hgrows : t.base.tree.Grows tree)
    (hfile : t.arrays.fileOf (t.base.named i.request) i = some f)
    (harray : tree.array = Function.update t.base.tree.array f
      (Arrays.edit (t.base.tree.array f) i.request)) : ContentInv t' := by
  have hbase := hp.base.trans hb
  refine hi.edited ?_ ?_ (by rw [hbase]) (by rw [hbase]) (by rw [hbase]; exact hgrows) ?_
  · rw [hp.handles, Session.handlesAfter_closed hopen, hclose]
    rfl
  · rw [hp.arrays]
    simp [Arrays.after, Arrays.handlesAfter, hopen, hclose]
  · rw [hp.arrays, Arrays.after_array hfile, hi.array, hbase, harray]

theorem ContentInv.step (hi : ContentInv t) (hg : t.Plain i)
    (hcall : i.request.call? (t.session.locals i).fi = some c)
    (hp : Performed P t i c ret data out t') : ContentInv t' := by
  have hin := hg.inRun
  have hhandle := hi.onHandle hg
  cases hreq : i.request with
  | «open» path flags =>
    have hopen : i.request.opens? = some flags := by rw [hreq]; rfl
    rw [Session.fi_locals_opens hopen, hreq] at hcall
    cases hcall
    exact hi.performed_open hg hp hopen (by rw [hreq]; rfl) (by rw [hreq]; rfl)
      (by simp only [Arrays.fileOf, hreq]) (by rw [hreq]; exact fun _ => rfl)
  | create path flags mode =>
    have hopen : i.request.opens? = some flags := by rw [hreq]; rfl
    rw [Session.fi_locals_opens hopen, hreq] at hcall
    cases hcall
    exact hi.performed_open hg hp hopen (by rw [hreq]; rfl) (by rw [hreq]; rfl)
      (by simp only [Arrays.fileOf, hreq]) (by rw [hreq]; exact fun _ => rfl)
  | release path => exact hi.performed_release hg hreq hcall hp
  | read path size offset =>
    obtain ⟨h, d, hid, hfi, ho, hd⟩ := hhandle (by rw [hreq]; rfl)
    simp only [hreq, hfi, Request.call?, ho.onDescriptor, Option.some.injEq] at hcall
    subst hcall
    have hb : (kernel P (.pread (toInt h.fi.fh) size offset) t.base).2 =
        { t.base with tree := t.base.tree } := Base.inspect_snd _
    refine hi.performed_edit (by rw [hreq]; rfl) (by rw [hreq]; rfl) hp hb (.refl _) (f := d.ino) ?_ ?_
    · simp only [Arrays.fileOf, hreq, hd]
    · rw [hreq]
      exact (Function.update_eq_self ..).symm
  | write path bytes offset =>
    obtain ⟨h, d, hid, hfi, ho, hd⟩ := hhandle (by rw [hreq]; rfl)
    simp only [hreq, hfi, Request.call?, ho.onDescriptor, Option.some.injEq] at hcall
    subst hcall
    obtain ⟨tree, hb, hgrows, harray⟩ :=
      pwrite_array ho.desc_ok ho.there ho.noAppend hp.reply (by simpa [inFull] using hp.inFull)
    refine hi.performed_edit (by rw [hreq]; rfl) (by rw [hreq]; rfl) hp hb hgrows (f := d.ino) ?_ ?_
    · simp only [Arrays.fileOf, hreq, hd]
    · rw [hreq]
      exact harray
  | truncate path length =>
    simp only [hreq, Request.call?, Option.some.injEq] at hcall
    subst hcall
    obtain ⟨p, j, tree, hf, hb, hgrows, harray⟩ := truncate_array hp.reply
    refine hi.performed_edit (by rw [hreq]; rfl) (by rw [hreq]; rfl) hp hb hgrows (f := j) ?_ ?_
    · simp only [Arrays.fileOf, hreq, Base.named, hf]
      rfl
    · rw [hreq]
      exact harray
  | ftruncate path length =>
    obtain ⟨h, d, hid, hfi, ho, hd⟩ := hhandle (by rw [hreq]; rfl)
    simp only [hreq, Request.call?, Option.some.injEq] at hcall
    subst hcall
    obtain ⟨p, j, tree, hf, hb, hgrows, harray⟩ := truncate_array hp.reply
    -- the call goes by the path, which leads to the file of the handle
    have hj : j = d.ino := by
      rw [hg.ownPath path length h hreq hid] at hf
      exact ho.names _ (.refl _) p j hf
    subst hj
    refine hi.performed_edit (by rw [hreq]; rfl) (by rw [hreq]; rfl) hp hb hgrows (f := d.ino) ?_ ?_
    · simp only [Arrays.fileOf, hreq, hd]
    · rw [hreq]
      exact harray
  | _ =>
    rw [hreq] at hin
    cases hin

theorem ContentInv.run {w : World Base}
    (h : Reachable (Mirrored.serve P E fuel) (Mirrored.Guarded P E fuel) (Mirrored.start w) t) :
    ContentInv t := by
  refine h.invariant (fun t i out t' hi hg hs => ?_) (ContentInv.start w)
  obtain ⟨c, hcall⟩ := hi.call hg.toPlain
  obtain ⟨ret, data, out', t'', hs', hp⟩ := hg.performs hcall
  cases hs.symm.trans hs'
  exact hi.atBody.step hg.toPlain.atBody hcall hp

theorem ContentInv.reads (hi : ContentInv t) (hg : t.Plain i) {path : CStr} {size : Nat}
    {offset : Int} (hreq : i.request = .read path size offset)
    (hcall : i.request.call? (t.session.locals i).fi = some c)
    (hp : Performed P t i c ret data out t') : ∃ f, t.arrays.handle i.handle = some f ∧
      out = t.delivered i ((t.arrays.array f).read offset.toNat size) := by
  obtain ⟨h, d, -, hfi, ho, hd⟩ := hi.onHandle hg (by rw [hreq]; rfl)
  simp only [hreq, hfi, Request.call?, ho.onDescriptor, Option.some.injEq] at hcall
  subst hcall
  obtain ⟨hle, hret, hdata⟩ :=
    pread_array ho.desc_ok ho.there hp.reply (by simpa [inFull] using hp.inFull)
  refine ⟨d.ino, hd, ?_⟩
  have hint : toInt ret = ret := by
    unfold Tree.MAX_RW_COUNT at hle
    exact toInt_of_small (by omega) (by omega)
  rw [hi.array, hp.result, hreq]
  simp only [Request.succeed, Request.prepare, Mirrored.delivered, hint,
    if_neg (natCast_ne_neg_one _), ← hret, ← hdata]

end

/-- In every state of a run the reference has what is in the base. Whatever comes
next is served: a read returns the bytes the reference has for the file of its
handle, and no request changes the bytes of another file than its own. -/
theorem contents_refine (P : Platform) (E : Setup) (fuel : Nat) (w : World Base) (t : Mirrored)
    (h : Reachable (Mirrored.serve P E fuel) (Mirrored.Guarded P E fuel) (Mirrored.start w) t) :
    t.arrays.array = t.base.tree.array ∧ ∀ i, t.Guarded P E fuel i →
      ∃ out t', t.serve P E fuel i = some (out, t') ∧
        (∀ path size offset, i.request = .read path size offset →
          ∃ f, t.arrays.handle i.handle = some f ∧
            out = t.delivered i ((t.arrays.array f).read offset.toNat size)) ∧
        ∀ f, t.arrays.fileOf (t.base.named i.request) i ≠ some f →
          t'.base.tree.array f = t.base.tree.array f := by
  have hi := ContentInv.run h
  refine ⟨hi.array, fun i hg => ?_⟩
  obtain ⟨c, hcall⟩ := hi.call hg.toPlain
  obtain ⟨ret, data, out, t', hs, hp⟩ := hg.performs hcall
  have hplain := hg.toPlain.atBody (P := P) (E := E)
  refine ⟨out, t', hs, fun path size offset hreq => hi.atBody.reads hplain hreq hcall hp,
    fun f hf => ?_⟩
  rw [← (hi.atBody.step hplain hcall hp).array, ← hi.array, hp.arrays, named_atBody]
  exact Arrays.after_other hf

/-- A gap before the bytes written reads as zeros. -/
theorem contents_refine_of_gap : ∃ (t t' : Mirrored) (out : Int × Local),
    t.serve .small (smallSetup (ascii "/c")) 0 ⟨.read (ascii "/a") 10 0, 0, .zero⟩ =
      some (out, t') ∧
    out = t.delivered ⟨.read (ascii "/a") 10 0, 0, .zero⟩ [0, 0, 7, 8] := by
  let i₁ : Incoming := ⟨.create (ascii "/a") { acc := .rdwr, creat := true } 0o644, 0, .zero⟩
  let i₂ : Incoming := ⟨.write (ascii "/a") [7, 8] 2, 0, .zero⟩
  let i₃ : Incoming := ⟨.read (ascii "/a") 10 0, 0, .zero⟩
  let E := smallSetup (ascii "/c")
  let t₀ := Mirrored.start (bootWorld .root none)
  have hrun : ((t₀.serve .small E 0 i₁).bind fun r₁ => (r₁.2.serve .small E 0 i₂).map fun r₂ =>
      ((r₁.2.session.code i₂ (posix .small) E, (r₁.2.session.handles 0).map (·.kind),
        (r₁.2.session.calls i₂ (posix .small) E 0).all inFull),
      (r₂.2.session.code i₃ (posix .small) E, (r₂.2.session.handles 0).map (·.kind),
        (r₂.2.session.calls i₃ (posix .small) E 0).all inFull),
      (r₂.2.arrays.handle 0).map fun f => (r₂.2.arrays.array f).read 0 10)) =
      some ((0, some .file, true), (0, some .file, true), some [0, 0, 7, 8]) := by decide
  obtain ⟨⟨out₁, t₁⟩, hs₁, hrun⟩ := Option.bind_eq_some_iff.mp hrun
  obtain ⟨⟨out₂, t₂⟩, hs₂, hrun⟩ := Option.map_eq_some_iff.mp hrun
  simp only [Prod.mk.injEq, List.all_eq_true] at hrun
  obtain ⟨⟨hc₁, hk₁, hf₁⟩, ⟨hc₂, hk₂, hf₂⟩, hread⟩ := hrun
  have hproper {t : Mirrored} {i : Incoming} (hk : (t.session.handles i.handle).map (·.kind) =
      some .file) (hopen : i.request.opens? = none) (hi : i.request.handleKind? = some .file) :
      t.session.Proper i := by
    refine ⟨fun h => absurd hopen h, fun k hk' => ?_⟩
    rw [hi] at hk'
    cases hk'
    exact Option.map_eq_some_iff.mp hk
  have hg₁ : t₀.Guarded .small E 0 i₁ :=
    { proper := ⟨fun _ => rfl, by rintro _ ⟨⟩⟩
      inRun := rfl
      noFault := by decide
      inFull := by decide
      noAppend := by rintro _ ⟨⟩; rfl
      ownPath := by rintro _ _ _ ⟨⟩ }
  have hg₂ : t₁.Guarded .small E 0 i₂ :=
    { proper := hproper hk₁ rfl rfl
      inRun := rfl
      noFault := hc₁
      inFull := hf₁
      noAppend := by rintro _ ⟨⟩
      ownPath := by rintro _ _ _ ⟨⟩ }
  have hg₃ : t₂.Guarded .small E 0 i₃ :=
    { proper := hproper hk₂ rfl rfl
      inRun := rfl
      noFault := hc₂
      inFull := hf₂
      noAppend := by rintro _ ⟨⟩
      ownPath := by rintro _ _ _ ⟨⟩ }
  obtain ⟨out, t', hs, hreads, -⟩ := (contents_refine .small E 0 _ t₂
    (.step (.step .refl hg₁ hs₁) hg₂ hs₂)).2 i₃ hg₃
  obtain ⟨f, hf, hout⟩ := hreads _ _ _ rfl
  rw [hf] at hread
  refine ⟨t₂, t', out, hs, ?_⟩
  rw [hout]
  exact congrArg _ (Option.some.inj hread)

end UnreliableFS
