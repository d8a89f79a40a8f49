import UnreliableFS.Posix.Laws
import UnreliableFS.Session
import Mathlib.Data.Set.Function

/-!
# Handles and descriptors

Runs of requests on handles over the kernel of `Posix`. The invariant ties every
live handle to the open file description its own open obtained, which is known
by its number for ever.
-/

namespace UnreliableFS

open Interaction Posix

def AllSucceed {σ : Type} (tr : List (Event sysSig σ)) : Prop :=
  ∀ e ∈ tr, SysReply.isDone e.reply = true

theorem AllSucceed.done {σ : Type} {tr : List (Event sysSig σ)} (h : AllSucceed tr)
    {e : Event sysSig σ} (he : e ∈ tr) : ∃ ret d, e.reply = SysReply.done ret d := by
  have hd := h e he
  cases hr : e.reply with
  | fail err =>
    rw [hr] at hd
    cases hd
  | done ret d => exact ⟨ret, d, rfl⟩

/-- The requests of these runs. -/
def Request.inHandleRun : Request → Bool
  | .open .. | .create .. | .opendir .. | .read .. | .write .. | .flush .. | .fsync .. | .ftruncate ..
  | .fgetattr .. | .lock .. | .flock .. | .ioctl .. | .fallocate .. | .release .. | .releasedir .. =>
    true
  | _ => false

/-- A session, and for every handle the number of the open file description that
its open obtained, if it made the call. -/
structure Tracked where
  session : Session Base
  opened : Nat → Option Nat

namespace Tracked

def start (w : World Base) : Tracked := ⟨⟨w, fun _ => none⟩, fun _ => none⟩

variable (P : Platform) (E : Setup) (fuel : Nat)

def base (t : Tracked) : Base := t.session.world.base

def calls (t : Tracked) (i : Incoming) : List (Event sysSig Base) :=
  t.session.calls i (posix P) E fuel

def openedAfter (t : Tracked) (i : Incoming) (rc : Int) : Nat → Option Nat :=
  if i.request.opens?.isSome ∧ rc = 0 then
    Function.update t.opened i.handle
      (if (t.calls P E fuel i).isEmpty then none else some t.base.nextDesc)
  else t.opened

def serve : Machine Tracked Incoming (Int × Local) := fun t i =>
  (t.session.serve (posix P) E fuel i).map fun r => (r.1, ⟨r.2, t.openedAfter P E fuel i r.1.1⟩)

/-- The runs in which the underlying calls succeed. -/
structure Succeeding (t : Tracked) (i : Incoming) : Prop where
  proper : t.session.Proper i
  inRun : i.request.inHandleRun = true
  succeed : AllSucceed (t.calls P E fuel i)

/-- Of these, the runs in which no open is replaced by a no-op. -/
structure Opening (t : Tracked) (i : Incoming) : Prop extends Succeeding P E fuel t i where
  opening : i.request.opens? ≠ none → t.session.code i (posix P) E ≠ -ERRNO_NOOP

/-- In which every release is let through, too. -/
structure Guarded (t : Tracked) (i : Incoming) : Prop extends Opening P E fuel t i where
  closing : i.request.closes = true → t.session.code i (posix P) E = 0

end Tracked

-- ---------------------------------------------------------------------------
-- What is to hold
-- ---------------------------------------------------------------------------

namespace Session

def live (s : Session Base) (k : Request.HandleKind) : Set Nat :=
  {id | ∃ h, s.handles id = some h ∧ h.kind = k}

def fhOf (s : Session Base) (id : Nat) : Nat := (s.handles id).elim 0 (·.fi.fh)

end Session

def clientStreams (b₀ b : Base) : Set Nat := {a | b.streams a ≠ none ∧ b₀.streams a = none}

/-- The descriptors opened since `b₀`, but for those inside a directory stream. -/
def clientDescriptors (b₀ b : Base) : Set Nat :=
  {fd | b.fds fd ≠ none ∧ b₀.fds fd = none ∧
    ∀ a ∈ clientStreams b₀ b, ∀ st, b.streams a = some st → st.fd ≠ fd}

/-- The live handles are, through `fi->fh`, the open descriptors and streams. -/
structure Mapped (b₀ : Base) (s : Session Base) : Prop where
  files : Set.BijOn s.fhOf (s.live .file) (clientDescriptors b₀ s.world.base)
  dirs : Set.BijOn s.fhOf (s.live .dir) (clientStreams b₀ s.world.base)

/-- They are different ones of these. -/
structure MappedInto (b₀ : Base) (s : Session Base) : Prop where
  files : Set.MapsTo s.fhOf (s.live .file) (clientDescriptors b₀ s.world.base)
  filesApart : Set.InjOn s.fhOf (s.live .file)
  dirs : Set.MapsTo s.fhOf (s.live .dir) (clientStreams b₀ s.world.base)
  dirsApart : Set.InjOn s.fhOf (s.live .dir)

/-- A call on a descriptor or a stream is on the open file description of a
handle's own open. -/
structure OnOwn (t : Tracked) (id : Nat) (e : Event sysSig Base) : Prop where
  descriptor : ∀ fd, Sys.descriptor? e.call = some fd →
    ∃ d, e.state.desc fd = .ok d ∧ t.opened id = some d.id
  stream : ∀ a, Sys.stream? e.call = some a →
    ∃ st d, e.state.stream a = .ok st ∧ e.state.desc st.fd = .ok d ∧ t.opened id = some d.id

-- ---------------------------------------------------------------------------
-- The invariant
-- ---------------------------------------------------------------------------

/-- A live handle has its descriptor, at its own open file description. -/
structure Owns (b₀ b : Base) (h : Handle) (opened : Option Nat) : Prop where
  file : h.kind = .file → h.fi.fh < 2 ^ 31 ∧ b₀.fds h.fi.fh = none ∧
    ∃ d, b.fds h.fi.fh = some d ∧ opened = some d.id
  dir : h.kind = .dir → b₀.streams h.fi.fh = none ∧ ∃ st d, b.streams h.fi.fh = some st ∧
    b₀.fds st.fd = none ∧ b.fds st.fd = some d ∧ opened = some d.id

def Holds (b : Base) (h : Handle) (fd : Nat) : Prop :=
  match h.kind with
  | .file => h.fi.fh = fd
  | .dir => ∃ st, b.streams h.fi.fh = some st ∧ st.fd = fd

theorem holds_file {b : Base} {h : Handle} (hk : h.kind = .file) : Holds b h h.fi.fh := by
  unfold Holds
  rw [hk]

theorem holds_dir {b : Base} {h : Handle} {st : DirStream} (hk : h.kind = .dir)
    (hst : b.streams h.fi.fh = some st) : Holds b h st.fd := by
  unfold Holds
  rw [hk]
  exact ⟨st, hst, rfl⟩

theorem holds_inj {b : Base} {h : Handle} {fd fd' : Nat} (hh : Holds b h fd) (hh' : Holds b h fd') :
    fd = fd' := by
  unfold Holds at hh hh'
  cases hk : h.kind with
  | file =>
    rw [hk] at hh hh'
    exact hh.symm.trans hh'
  | dir =>
    rw [hk] at hh hh'
    obtain ⟨st, hst, rfl⟩ := hh
    obtain ⟨st', hst', rfl⟩ := hh'
    rw [hst] at hst'
    cases hst'
    rfl

theorem holds_congr {b b' : Base} {h : Handle} {fd : Nat}
    (hs : h.kind = .dir → b.streams h.fi.fh ≠ none → b'.streams h.fi.fh = b.streams h.fi.fh)
    (hh : Holds b h fd) : Holds b' h fd := by
  unfold Holds at hh ⊢
  cases hk : h.kind with
  | file =>
    rw [hk] at hh
    exact hh
  | dir =>
    rw [hk] at hh
    obtain ⟨st, hst, hfd⟩ := hh
    exact ⟨st, (hs hk (by simp [hst])).trans hst, hfd⟩

theorem Owns.congr {b₀ b b' : Base} {h : Handle} {opened : Option Nat} (hown : Owns b₀ b h opened)
    (hfds : ∀ fd, Holds b h fd → b'.fds fd = b.fds fd)
    (hs : h.kind = .dir → b.streams h.fi.fh ≠ none → b'.streams h.fi.fh = b.streams h.fi.fh) :
    Owns b₀ b' h opened := by
  constructor
  · intro hk
    obtain ⟨hlt, hn, d, hd, ho⟩ := hown.file hk
    exact ⟨hlt, hn, d, (hfds _ (holds_file hk)).trans hd, ho⟩
  · intro hk
    obtain ⟨hn, st, d, hst, hn', hd, ho⟩ := hown.dir hk
    exact ⟨hn, st, d, (hs hk (by simp [hst])).trans hst, hn', (hfds _ (holds_dir hk hst)).trans hd, ho⟩

/-- What is open is held by a handle when every release closes it (`closing`). -/
structure HandleInv (b₀ : Base) (t : Tracked) (closing : Prop) : Prop where
  own : ∀ fd, b₀.fds fd ≠ none → t.base.fds fd = b₀.fds fd
  ownStreams : ∀ a, b₀.streams a ≠ none → t.base.streams a = b₀.streams a
  owns : ∀ id h, t.session.handles id = some h → Owns b₀ t.base h (t.opened id)
  issued : ∀ id h n, t.session.handles id = some h → t.opened id = some n → n < t.base.nextDesc
  distinct : ∀ id id' h h', t.session.handles id = some h → t.session.handles id' = some h' →
    t.opened id = t.opened id' → id = id'
  streams : ∀ a st, t.base.streams a = some st → b₀.streams a = none → t.base.fds st.fd ≠ none ∧
    ∀ id h, t.session.handles id = some h → Holds t.base h st.fd → h.kind = .dir ∧ h.fi.fh = a
  held : closing → ∀ fd, t.base.fds fd ≠ none → b₀.fds fd = none →
    ∃ id h, t.session.handles id = some h ∧ Holds t.base h fd
  heldStreams : closing → ∀ a, t.base.streams a ≠ none → b₀.streams a = none →
    ∃ id h, t.session.handles id = some h ∧ h.kind = .dir ∧ h.fi.fh = a

namespace HandleInv

variable {b₀ : Base} {t t' : Tracked} {closing : Prop}

theorem start (w : World Base) : HandleInv w.base (Tracked.start w) closing where
  own := fun _ _ => rfl
  ownStreams := fun _ _ => rfl
  owns := by rintro _ _ ⟨⟩
  issued := by rintro _ _ _ ⟨⟩
  distinct := by rintro _ _ _ _ ⟨⟩
  streams := by
    intro a st hst h₀
    cases h₀.symm.trans hst
  held := fun _ _ h h₀ => absurd h₀ h
  heldStreams := fun _ _ h h₀ => absurd h₀ h

theorem congr (hi : HandleInv b₀ t closing) (hb : SameOpen t.base t'.base)
    (hh : t'.session.handles = t.session.handles) (ho : t'.opened = t.opened) :
    HandleInv b₀ t' closing where
  own := by
    rw [hb.fds]
    exact hi.own
  ownStreams := by
    rw [hb.streams]
    exact hi.ownStreams
  owns := by
    rw [hh, ho]
    intro id h hid
    exact (hi.owns id h hid).congr (fun _ _ => by rw [hb.fds]) fun _ _ => by rw [hb.streams]
  issued := by
    rw [hh, ho]
    intro id h n hid hn
    exact Nat.lt_of_lt_of_le (hi.issued id h n hid hn) hb.nextDesc
  distinct := by
    rw [hh, ho]
    exact hi.distinct
  streams := by
    rw [hh, hb.streams, hb.fds]
    intro a st hst h₀
    obtain ⟨hopen, hheld⟩ := hi.streams a st hst h₀
    refine ⟨hopen, fun id h hid hholds => hheld id h hid ?_⟩
    exact holds_congr (fun _ _ => by rw [hb.streams]) hholds
  held := by
    rw [hh, hb.fds]
    intro hc fd hfd h₀
    obtain ⟨id, h, hid, hheld⟩ := hi.held hc fd hfd h₀
    exact ⟨id, h, hid, holds_congr (fun _ _ => by rw [hb.streams]) hheld⟩
  heldStreams := by
    rw [hh, hb.streams]
    exact hi.heldStreams

theorem holds (hi : HandleInv b₀ t closing) {id : Nat} {h : Handle} (hid : t.session.handles id = some h) :
    ∃ fd, Holds t.base h fd := by
  cases hk : h.kind with
  | file => exact ⟨_, holds_file hk⟩
  | dir =>
    obtain ⟨-, st, -, hst, -⟩ := (hi.owns id h hid).dir hk
    exact ⟨_, holds_dir hk hst⟩

theorem holds_desc (hi : HandleInv b₀ t closing) {id fd : Nat} {h : Handle}
    (hid : t.session.handles id = some h) (hh : Holds t.base h fd) :
    b₀.fds fd = none ∧ ∃ d, t.base.fds fd = some d ∧ t.opened id = some d.id := by
  unfold Holds at hh
  cases hk : h.kind with
  | file =>
    rw [hk] at hh
    subst hh
    exact ((hi.owns id h hid).file hk).2
  | dir =>
    rw [hk] at hh
    obtain ⟨st, hst, rfl⟩ := hh
    obtain ⟨-, st', d, hst', hn, hd, ho⟩ := (hi.owns id h hid).dir hk
    rw [hst] at hst'
    cases hst'
    exact ⟨hn, d, hd, ho⟩

theorem holds_unique (hi : HandleInv b₀ t closing) {id id' : Nat} {h h' : Handle} {fd : Nat}
    (hid : t.session.handles id = some h) (hid' : t.session.handles id' = some h')
    (hh : Holds t.base h fd) (hh' : Holds t.base h' fd) : id = id' := by
  obtain ⟨-, d, hd, ho⟩ := hi.holds_desc hid hh
  obtain ⟨-, d', hd', ho'⟩ := hi.holds_desc hid' hh'
  rw [hd] at hd'
  cases hd'
  exact hi.distinct id id' h h' hid hid' (ho.trans ho'.symm)

theorem fhOf_eq {s : Session Base} {id : Nat} {h : Handle} (hid : s.handles id = some h) :
    s.fhOf id = h.fi.fh := by
  unfold Session.fhOf
  rw [hid]
  rfl

theorem mappedInto (hi : HandleInv b₀ t closing) : MappedInto b₀ t.session := by
  constructor
  case files =>
    rintro id ⟨h, hid, hk⟩
    obtain ⟨-, h₀, d, hd, -⟩ := (hi.owns id h hid).file hk
    rw [fhOf_eq hid]
    refine ⟨fun hn => Option.some_ne_none d (hd.symm.trans hn), h₀, ?_⟩
    rintro a ⟨-, ha₀⟩ st hst hfd
    -- only a handle on the stream could hold its descriptor
    obtain ⟨hk', -⟩ := (hi.streams a st hst ha₀).2 id h hid (hfd ▸ holds_file hk)
    rw [hk] at hk'
    cases hk'
  case filesApart =>
    rintro id ⟨h, hid, hk⟩ id' ⟨h', hid', hk'⟩ he
    rw [fhOf_eq hid, fhOf_eq hid'] at he
    have hheld' := holds_file (b := t.base) hk'
    rw [← he] at hheld'
    exact hi.holds_unique hid hid' (holds_file hk) hheld'
  case dirs =>
    rintro id ⟨h, hid, hk⟩
    obtain ⟨h₀, st, d, hst, -⟩ := (hi.owns id h hid).dir hk
    rw [fhOf_eq hid]
    exact ⟨fun hn => Option.some_ne_none st (hst.symm.trans hn), h₀⟩
  case dirsApart =>
    rintro id ⟨h, hid, hk⟩ id' ⟨h', hid', hk'⟩ he
    rw [fhOf_eq hid, fhOf_eq hid'] at he
    obtain ⟨-, st, d, hst, -⟩ := (hi.owns id h hid).dir hk
    have hst' := hst
    rw [he] at hst'
    exact hi.holds_unique hid hid' (holds_dir hk hst) (holds_dir hk' hst')

theorem mapped (hi : HandleInv b₀ t closing) (hc : closing) : Mapped b₀ t.session := by
  have hinto := hi.mappedInto
  refine ⟨⟨hinto.files, hinto.filesApart, ?_⟩, ⟨hinto.dirs, hinto.dirsApart, ?_⟩⟩
  · rintro fd ⟨hfd, h₀, hstream⟩
    obtain ⟨id, h, hid, hheld⟩ := hi.held hc fd hfd h₀
    cases hk : h.kind with
    | file =>
      refine ⟨id, ⟨h, hid, hk⟩, ?_⟩
      rw [fhOf_eq hid]
      unfold Holds at hheld
      rw [hk] at hheld
      exact hheld
    | dir =>
      unfold Holds at hheld
      rw [hk] at hheld
      obtain ⟨st, hst, he⟩ := hheld
      obtain ⟨h₀', -⟩ := (hi.owns id h hid).dir hk
      have ha : h.fi.fh ∈ clientStreams b₀ t.session.world.base :=
        ⟨fun hn => Option.some_ne_none st (hst.symm.trans hn), h₀'⟩
      exact absurd he (hstream _ ha st hst)
  · rintro a ⟨ha, ha₀⟩
    obtain ⟨id, h, hid, hk, rfl⟩ := hi.heldStreams hc a ha ha₀
    exact ⟨id, ⟨h, hid, hk⟩, fhOf_eq hid⟩

theorem opened (hi : HandleInv b₀ t closing) {id fd : Nat} {h : Handle} {d : Desc}
    (hfree : t.base.fds fd = none) (hfresh : t.session.handles id = none)
    (hd : d.id = t.base.nextDesc)
    (hfds : t'.base.fds = Function.update t.base.fds fd (some d))
    (hnext : t'.base.nextDesc = t.base.nextDesc + 1)
    (hold : ∀ a, t.base.streams a ≠ none → t'.base.streams a = t.base.streams a)
    (hnew : ∀ a, t'.base.streams a ≠ none → t.base.streams a = none → h.kind = .dir ∧ h.fi.fh = a)
    (hh : t'.session.handles = Function.update t.session.handles id (some h))
    (ho : t'.opened = Function.update t.opened id (some d.id))
    (howns : b₀.fds fd = none → Owns b₀ t'.base h (some d.id))
    (hheld : Holds t'.base h fd) : HandleInv b₀ t' closing := by
  have h₀ : b₀.fds fd = none := by
    by_contra h₀
    rw [← hi.own fd h₀] at h₀
    exact h₀ hfree
  have hfds' {fd' : Nat} (hfd' : t.base.fds fd' ≠ none) : t'.base.fds fd' = t.base.fds fd' := by
    have hne : fd' ≠ fd := by
      rintro rfl
      exact hfd' hfree
    rw [hfds, Function.update_of_ne hne]
  have hold' {id' : Nat} {g : Handle} (hg : t.session.handles id' = some g) :
      id' ≠ id ∧ t'.session.handles id' = some g ∧ t'.opened id' = t.opened id' := by
    have hne : id' ≠ id := by
      rintro rfl
      rw [hfresh] at hg
      cases hg
    rw [hh, ho, Function.update_of_ne hne, Function.update_of_ne hne]
    exact ⟨hne, hg, rfl⟩
  have hcases {id' : Nat} {g : Handle} (hg : t'.session.handles id' = some g) :
      (id' = id ∧ h = g) ∨ t.session.handles id' = some g := by
    rw [hh] at hg
    exact (update_some_eq.mp hg).imp_right And.right
  have hself : t'.session.handles id = some h ∧ t'.opened id = some d.id := by
    rw [hh, ho, Function.update_self, Function.update_self]
    exact ⟨rfl, rfl⟩
  have hissued {id' : Nat} {g : Handle} {n : Nat} (hg : t.session.handles id' = some g)
      (hn : t'.opened id' = some n) : n < t.base.nextDesc := by
    rw [(hold' hg).2.2] at hn
    exact hi.issued id' g n hg hn
  constructor
  case own =>
    intro fd' h₀'
    have hfd' := h₀'
    rw [← hi.own fd' h₀'] at hfd'
    rw [hfds' hfd', hi.own fd' h₀']
  case ownStreams =>
    intro a ha₀
    have ha := ha₀
    rw [← hi.ownStreams a ha₀] at ha
    rw [hold a ha, hi.ownStreams a ha₀]
  case owns =>
    intro id' g hg
    obtain ⟨rfl, rfl⟩ | hg := hcases hg
    · rw [hself.2]
      exact howns h₀
    · rw [(hold' hg).2.2]
      refine (hi.owns id' g hg).congr (fun fd' hheld' => hfds' ?_) fun _ hs => hold _ hs
      obtain ⟨-, d', hd', -⟩ := hi.holds_desc hg hheld'
      simp [hd']
  case issued =>
    intro id' g n hg hn
    rw [hnext]
    obtain ⟨rfl, rfl⟩ | hg := hcases hg
    · rw [hself.2] at hn
      cases hn
      omega
    · have hlt := hissued hg hn
      omega
  case distinct =>
    -- the number is new, so no other handle can have it
    have hnot {id' : Nat} {g : Handle} (hg : t.session.handles id' = some g)
        (he : t'.opened id' = t'.opened id) : False := by
      rw [hself.2] at he
      have hlt := hissued hg he
      omega
    intro id₁ id₂ g₁ g₂ hg₁ hg₂ he
    obtain ⟨rfl, rfl⟩ | hg₁ := hcases hg₁
    · obtain ⟨rfl, rfl⟩ | hg₂ := hcases hg₂
      · rfl
      · exact (hnot hg₂ he.symm).elim
    · obtain ⟨rfl, rfl⟩ | hg₂ := hcases hg₂
      · exact (hnot hg₁ he).elim
      · rw [(hold' hg₁).2.2, (hold' hg₂).2.2] at he
        exact hi.distinct id₁ id₂ g₁ g₂ hg₁ hg₂ he
  case streams =>
    -- what an old handle holds it has held before, and that is not the new descriptor
    have hback {id' fd' : Nat} {g : Handle} (hg : t.session.handles id' = some g)
        (hholds : Holds t'.base g fd') : Holds t.base g fd' ∧ t.base.fds fd' ≠ none := by
      obtain ⟨fd₁, hfd₁⟩ := hi.holds hg
      obtain ⟨-, d₁, hd₁, -⟩ := hi.holds_desc hg hfd₁
      have he := holds_inj (holds_congr (fun _ hs => hold _ hs) hfd₁) hholds
      subst he
      exact ⟨hfd₁, by simp [hd₁]⟩
    intro a st hst ha₀
    by_cases hat : t.base.streams a = none
    · obtain ⟨hk, rfl⟩ := hnew a (by simp [hst]) hat
      have hfd : fd = st.fd := holds_inj hheld (holds_dir hk hst)
      refine ⟨by simp [hfds, ← hfd], fun id' g hg hholds => ?_⟩
      obtain ⟨rfl, rfl⟩ | hg := hcases hg
      · exact ⟨hk, rfl⟩
      · exact absurd (hfd ▸ hfree) (hback hg hholds).2
    · obtain ⟨hopen, hheld'⟩ := hi.streams a st ((hold a hat).symm.trans hst) ha₀
      refine ⟨by rw [hfds' hopen]; exact hopen, fun id' g hg hholds => ?_⟩
      obtain ⟨rfl, rfl⟩ | hg := hcases hg
      · exact absurd (holds_inj hheld hholds ▸ hfree) hopen
      · exact hheld' id' g hg (hback hg hholds).1
  case held =>
    intro hc fd' hfd' h₀'
    by_cases he : fd' = fd
    · subst he
      exact ⟨id, h, hself.1, hheld⟩
    · rw [hfds, Function.update_of_ne he] at hfd'
      obtain ⟨id', g, hg, hholds⟩ := hi.held hc fd' hfd' h₀'
      exact ⟨id', g, (hold' hg).2.1, holds_congr (fun _ hs => hold _ hs) hholds⟩
  case heldStreams =>
    intro hc a ha ha₀
    by_cases hat : t.base.streams a = none
    · obtain ⟨hk, he⟩ := hnew a ha hat
      exact ⟨id, h, hself.1, hk, he⟩
    · obtain ⟨id', g, hg, hk, he⟩ := hi.heldStreams hc a hat ha₀
      exact ⟨id', g, (hold' hg).2.1, hk, he⟩

theorem apart (hi : HandleInv b₀ t closing) {id id' fd : Nat} {h g : Handle}
    (hid : t.session.handles id = some h) (hg : t.session.handles id' = some g) (hne : id' ≠ id)
    (hheld : Holds t.base h fd) : (∀ fd', Holds t.base g fd' → fd' ≠ fd) ∧
      (h.kind = .dir → g.kind = .dir → g.fi.fh ≠ h.fi.fh) := by
  constructor
  · rintro fd' hholds rfl
    exact hne (hi.holds_unique hg hid hholds hheld)
  · intro hk' hk he
    obtain ⟨-, st, d, hst, -⟩ := (hi.owns id' g hg).dir hk
    have hst' := hst
    rw [he] at hst'
    exact hne (hi.holds_unique hg hid (holds_dir hk hst) (holds_dir hk' hst'))

theorem closed (hi : HandleInv b₀ t closing) {id fd : Nat} {h : Handle}
    (hid : t.session.handles id = some h) (hheld : Holds t.base h fd)
    (hfds : t'.base.fds = Function.update t.base.fds fd none)
    (hnext : t'.base.nextDesc = t.base.nextDesc)
    (hstreams : ∀ a, t'.base.streams a = if h.kind = .dir ∧ a = h.fi.fh then none
      else t.base.streams a)
    (hh : t'.session.handles = Function.update t.session.handles id none)
    (ho : t'.opened = t.opened) : HandleInv b₀ t' closing := by
  have hcases {id' : Nat} {g : Handle} (hg : t'.session.handles id' = some g) :
      id' ≠ id ∧ t.session.handles id' = some g := by
    rw [hh] at hg
    exact update_none_eq.mp hg
  have hkeep {id' : Nat} {g : Handle} (hne : id' ≠ id) (hg : t.session.handles id' = some g) :
      t'.session.handles id' = some g := by
    rw [hh, Function.update_of_ne hne, hg]
  obtain ⟨hfd₀, -⟩ := hi.holds_desc hid hheld
  have hfds' {fd' : Nat} (hne : fd' ≠ fd) : t'.base.fds fd' = t.base.fds fd' := by
    rw [hfds, Function.update_of_ne hne]
  -- no other handle held the descriptor, nor is any other on the stream
  have hfd' {id' fd' : Nat} {g : Handle} (hne : id' ≠ id) (hg : t.session.handles id' = some g)
      (hholds : Holds t.base g fd') : fd' ≠ fd :=
    (hi.apart hid hg hne hheld).1 fd' hholds
  have hst' {id' : Nat} {g : Handle} (hne : id' ≠ id) (hg : t.session.handles id' = some g)
      (hk : g.kind = .dir) : t'.base.streams g.fi.fh = t.base.streams g.fi.fh := by
    rw [hstreams, if_neg]
    rintro ⟨hk', he⟩
    exact (hi.apart hid hg hne hheld).2 hk' hk he
  constructor
  case own =>
    intro fd' h₀'
    have hne : fd' ≠ fd := by
      rintro rfl
      exact h₀' hfd₀
    rw [hfds' hne, hi.own fd' h₀']
  case ownStreams =>
    intro a ha₀
    rw [hstreams, if_neg, hi.ownStreams a ha₀]
    rintro ⟨hk, rfl⟩
    exact ha₀ ((hi.owns id h hid).dir hk).1
  case owns =>
    intro id' g hg
    obtain ⟨hne, hg⟩ := hcases hg
    rw [ho]
    exact (hi.owns id' g hg).congr (fun _ hheld' => hfds' (hfd' hne hg hheld'))
      fun hk _ => hst' hne hg hk
  case issued =>
    intro id' g n hg hn
    rw [ho] at hn
    rw [hnext]
    exact hi.issued id' g n (hcases hg).2 hn
  case distinct =>
    intro id₁ id₂ g₁ g₂ hg₁ hg₂ he
    rw [ho] at he
    exact hi.distinct id₁ id₂ g₁ g₂ (hcases hg₁).2 (hcases hg₂).2 he
  case streams =>
    intro a st hst ha₀
    rw [hstreams] at hst
    split at hst
    · cases hst
    · rename_i hne
      obtain ⟨hopen, hheld'⟩ := hi.streams a st hst ha₀
      have hfd : st.fd ≠ fd := by
        rintro rfl
        obtain ⟨hk, he⟩ := hheld' id h hid hheld
        exact hne ⟨hk, he.symm⟩
      refine ⟨by rw [hfds' hfd]; exact hopen, fun id' g hg hholds => ?_⟩
      obtain ⟨hne', hg⟩ := hcases hg
      exact hheld' id' g hg (holds_congr (fun hk _ => (hst' hne' hg hk).symm) hholds)
  case held =>
    intro hc fd' hn h₀'
    have hne : fd' ≠ fd := by
      rintro rfl
      rw [hfds, Function.update_self] at hn
      exact hn rfl
    rw [hfds' hne] at hn
    obtain ⟨id', g, hg, hholds⟩ := hi.held hc fd' hn h₀'
    have hid' : id' ≠ id := by
      rintro rfl
      rw [hid] at hg
      cases hg
      exact hne (holds_inj hholds hheld)
    exact ⟨id', g, hkeep hid' hg, holds_congr (fun hk _ => hst' hid' hg hk) hholds⟩
  case heldStreams =>
    intro hc a hn ha₀
    rw [hstreams] at hn
    split at hn
    · exact absurd rfl hn
    · rename_i hne
      obtain ⟨id', g, hg, hk, rfl⟩ := hi.heldStreams hc a hn ha₀
      have hid' : id' ≠ id := by
        rintro rfl
        rw [hid] at hg
        cases hg
        exact hne ⟨hk, rfl⟩
      exact ⟨id', g, hkeep hid' hg, hk, rfl⟩

theorem lost (hi : HandleInv b₀ t closing) (hc : ¬closing) {id : Nat} (hb : t'.base = t.base)
    (hh : t'.session.handles = Function.update t.session.handles id none)
    (ho : t'.opened = t.opened) : HandleInv b₀ t' closing := by
  have hold {id' : Nat} {g : Handle} (hg : t'.session.handles id' = some g) :
      t.session.handles id' = some g := by
    rw [hh] at hg
    exact (update_none_eq.mp hg).2
  constructor
  case own => exact hb ▸ hi.own
  case ownStreams => exact hb ▸ hi.ownStreams
  case owns =>
    rw [hb, ho]
    exact fun id' g hg => hi.owns id' g (hold hg)
  case issued =>
    rw [hb, ho]
    exact fun id' g n hg => hi.issued id' g n (hold hg)
  case distinct =>
    rw [ho]
    exact fun id₁ id₂ g₁ g₂ hg₁ hg₂ => hi.distinct id₁ id₂ g₁ g₂ (hold hg₁) (hold hg₂)
  case streams =>
    rw [hb]
    intro a st hst ha₀
    obtain ⟨hopen, hheld⟩ := hi.streams a st hst ha₀
    exact ⟨hopen, fun id' g hg => hheld id' g (hold hg)⟩
  case held => exact fun h => absurd h hc
  case heldStreams => exact fun h => absurd h hc

theorem opened_file (hi : HandleInv b₀ t closing) {id fd : Nat} {tree : Tree} {i : Ino} {flags : OpenFlags}
    {path : CStr} (hfree : t.base.freeFd = .ok fd) (hfresh : t.session.handles id = none)
    (hb : t'.base = { t.base with tree }.install fd i flags.acc flags.append)
    (hh : t'.session.handles =
      Function.update t.session.handles id (some ⟨{ flags, fh := fd }, path, .file⟩))
    (ho : t'.opened = Function.update t.opened id (some t.base.nextDesc)) :
    HandleInv b₀ t' closing := by
  obtain ⟨hnone, hlt⟩ := Base.freeFd_ok hfree
  have hlt' := t.base.nofile_le
  refine hi.opened hnone hfresh (d := ⟨t.base.nextDesc, i, flags.acc, flags.append⟩) rfl
    (by rw [hb]; rfl) (by rw [hb]; rfl) (fun _ _ => by rw [hb]; rfl) ?_ hh ho ?_ (holds_file rfl)
  · intro a ha hn
    rw [hb] at ha
    exact absurd hn ha
  · intro h₀
    constructor
    · intro _
      refine ⟨by show fd < _; omega, h₀, _, ?_, rfl⟩
      rw [hb]
      exact Function.update_self ..
    · rintro ⟨⟩

theorem opened_dir (hi : HandleInv b₀ t closing) {id a fd : Nat} {i : Ino} {rest : List Dirent}
    {path : CStr} (hfree : t.base.freeFd = .ok fd) (hstream : t.base.streams a = none)
    (hfresh : t.session.handles id = none)
    (hb : t'.base = (t.base.install fd i .rdonly false).setStream a (some ⟨fd, rest⟩))
    (hh : t'.session.handles =
      Function.update t.session.handles id (some ⟨{ fh := a }, path, .dir⟩))
    (ho : t'.opened = Function.update t.opened id (some t.base.nextDesc)) :
    HandleInv b₀ t' closing := by
  obtain ⟨hnone, -⟩ := Base.freeFd_ok hfree
  have hself : t'.base.streams a = some ⟨fd, rest⟩ := by
    rw [hb]
    exact Function.update_self ..
  refine hi.opened hnone hfresh (d := ⟨t.base.nextDesc, i, .rdonly, false⟩) rfl (by rw [hb]; rfl)
    (by rw [hb]; rfl) ?_ ?_ hh ho ?_ (holds_dir (h := ⟨{ fh := a }, path, .dir⟩) rfl hself)
  · intro a' ha'
    have hne : a' ≠ a := by
      rintro rfl
      exact ha' hstream
    rw [hb]
    exact Function.update_of_ne hne ..
  · intro a' ha' hn
    refine ⟨rfl, ?_⟩
    by_contra hne
    rw [hb] at ha'
    apply ha'
    exact (Function.update_of_ne (Ne.symm hne) ..).trans hn
  · intro h₀
    constructor
    · rintro ⟨⟩
    · intro _
      have ha₀ : b₀.streams a = none := by
        by_contra ha₀
        rw [← hi.ownStreams a ha₀] at ha₀
        exact ha₀ hstream
      refine ⟨ha₀, _, _, hself, h₀, ?_, rfl⟩
      rw [hb]
      exact Function.update_self ..

theorem closed_file (hi : HandleInv b₀ t closing) {id : Nat} {h : Handle} {d : Desc}
    (hid : t.session.handles id = some h) (hk : h.kind = .file)
    (hb : t'.base = t.base.closeFd h.fi.fh d)
    (hh : t'.session.handles = Function.update t.session.handles id none)
    (ho : t'.opened = t.opened) : HandleInv b₀ t' closing := by
  refine hi.closed hid (holds_file hk) (by rw [hb]; rfl) (by rw [hb]; rfl) ?_ hh ho
  intro a
  rw [hb, hk, if_neg (by simp)]
  rfl

theorem closed_dir (hi : HandleInv b₀ t closing) {id : Nat} {h : Handle} {st : DirStream} {d : Desc}
    (hid : t.session.handles id = some h) (hk : h.kind = .dir)
    (hst : t.base.streams h.fi.fh = some st)
    (hb : t'.base = (t.base.closeFd st.fd d).setStream h.fi.fh none)
    (hh : t'.session.handles = Function.update t.session.handles id none)
    (ho : t'.opened = t.opened) : HandleInv b₀ t' closing := by
  refine hi.closed hid (holds_dir hk hst) (by rw [hb]; rfl) (by rw [hb]; rfl) ?_ hh ho
  intro a
  rw [hb, hk]
  simp only [true_and]
  exact Function.update_apply ..

end HandleInv

-- ---------------------------------------------------------------------------
-- What the bodies do to the table
-- ---------------------------------------------------------------------------

section
variable {P : Platform} {fuel : Nat} {r : Request} {l : Local} {fi : FuseFileInfo} {b b' : Base}
  {out : Int × Local}

def Request.quiet : Request → Bool
  | .read .. | .write .. | .fsync .. | .ftruncate .. | .fgetattr .. | .lock .. | .flock .. | .ioctl ..
  | .fallocate .. => true
  | _ => false

/-- But for `ftruncate`, which goes by its path, the call is on the descriptor. -/
theorem quiet_call? (hq : r.quiet = true) {c : Sys} (hc : r.call? (some fi) = some c) :
    changesTable c = false ∧ Sys.stream? c = none ∧
      (Sys.descriptor? c = some (toInt fi.fh) ∨
        ∃ path n, r = .ftruncate path n ∧ c = .truncate path n) := by
  cases r with
  | read | write =>
    simp only [Request.call?] at hc
    obtain ⟨_, hfi, -, rfl⟩ := Request.onDescriptor_eq_some hc
    cases hfi
    exact ⟨rfl, rfl, .inl rfl⟩
  | fallocate path mode offset len =>
    simp only [Request.call?] at hc
    split at hc
    · obtain ⟨_, hfi, -, rfl⟩ := Request.onDescriptor_eq_some hc
      cases hfi
      exact ⟨rfl, rfl, .inl rfl⟩
    · cases hc
  | fsync path datasync =>
    cases hc
    cases datasync
    · exact ⟨rfl, rfl, .inl rfl⟩
    · exact ⟨rfl, rfl, .inl rfl⟩
  | fgetattr | lock | flock | ioctl =>
    cases hc
    exact ⟨rfl, rfl, .inl rfl⟩
  | ftruncate path n =>
    cases hc
    exact ⟨rfl, rfl, .inr ⟨path, n, rfl, rfl⟩⟩
  | _ => cases hq

theorem quiet_no_call (hq : r.quiet = true) (hfi : l.fi = some fi)
    (hc : r.call? (some fi) = none) : ∃ out, (r.operation fuel).body l = .done out := by
  cases r with
  | read path size offset =>
    simp only [Request.call?] at hc
    obtain hn | ⟨_, hfi', hfd⟩ := Request.onDescriptor_eq_none hc
    · cases hn
    · cases hfi'
      exact ⟨_, Request.transfer_no_descriptor (.open path O_RDONLY 0) (.pread · size offset) hfi hfd⟩
  | write path data offset =>
    simp only [Request.call?] at hc
    obtain hn | ⟨_, hfi', hfd⟩ := Request.onDescriptor_eq_none hc
    · cases hn
    · cases hfi'
      exact ⟨_, Request.transfer_no_descriptor (.open path O_WRONLY 0) (.pwrite · data offset) hfi hfd⟩
  | fallocate path mode offset len =>
    simp only [Request.call?] at hc
    split at hc
    · rename_i hm
      subst hm
      obtain hn | ⟨_, hfi', hfd⟩ := Request.onDescriptor_eq_none hc
      · cases hn
      · cases hfi'
        rw [Request.fallocate_body_handle path offset len hfi, if_pos hfd]
        exact ⟨_, rfl⟩
    · rename_i hm
      simp only [Request.operation, unreliableFallocate, ne_eq, hm, not_false_eq_true, ↓reduceIte]
      exact ⟨_, rfl⟩
  | fsync | fgetattr | lock | flock | ioctl | ftruncate =>
    simp only [Request.call?, Option.map_some, reduceCtorEq] at hc
  | _ => cases hq

theorem quiet_sameTable (hq : r.quiet = true) (hfi : l.fi = some fi)
    (hr : ((r.operation fuel).body l).run (kernel P) b = some (out, b')) : SameTable b b' := by
  cases hc : r.call? (some fi) with
  | none =>
    obtain ⟨out', hb⟩ := quiet_no_call hq hfi hc
    rw [hb] at hr
    cases hr
    exact .refl b
  | some c =>
    rw [Request.run_of_call? (hfi ▸ hc)] at hr
    cases hr
    exact kernel_sameTable (quiet_call? hq hc).1

theorem flush_run {path : CStr} (hfi : l.fi = some fi)
    (hs : AllSucceed ((((Request.flush path).operation fuel).body l).trace (kernel P) b)) :
    ∃ d new r₁ r₂ out, b.desc (toInt fi.fh) = .ok d ∧ b.freeFd = .ok new ∧
      (((Request.flush path).operation fuel).body l).run (kernel P) b =
        some (out, (b.setFd new (some d)).closeFd new d) ∧
      (((Request.flush path).operation fuel).body l).trace (kernel P) b =
        [⟨b, .dup (toInt fi.fh), r₁⟩, ⟨b.setFd new (some d), .close new, r₂⟩] := by
  simp only [Request.operation, unreliableFlush, Body.bind_apply, fh_apply l hfi, Prog.done_bind]
    at hs ⊢
  rcases hd : (kernel P (.dup (toInt fi.fh)) b).1 with e | ⟨new, data⟩
  · rw [sys_trace_fail hd] at hs
    obtain ⟨ret, data, he⟩ := hs.done (List.mem_cons_self ..)
    cases he
  · obtain ⟨d, hdesc, hfree, hb⟩ := kernel_dup hd
    rw [sys_trace_done hd] at hs ⊢
    rw [sys_run_done hd]
    dsimp only at hs ⊢
    rw [hb] at hs ⊢
    rw [forward_trace] at hs ⊢
    rcases hx : (kernel P (.close new) (b.setFd new (some d))).1 with e | ⟨ret, data'⟩
    · rw [hx] at hs
      obtain ⟨ret, data, he⟩ := hs.done (List.mem_cons_of_mem _ (List.mem_cons_self ..))
      cases he
    · obtain ⟨d', hdesc', hb'⟩ := kernel_close hx
      obtain ⟨-, hd'⟩ := Base.desc_ok.mp hdesc'
      rw [Int.toNat_natCast] at hd' hb'
      have he : d' = d := by
        simpa [Base.setFd, eq_comm] using hd'
      subst he
      rw [forward_run_done hx, hb']
      exact ⟨d', new, _, _, _, hdesc, hfree, rfl, rfl⟩

end

-- ---------------------------------------------------------------------------
-- The step
-- ---------------------------------------------------------------------------

section
variable {P : Platform} {E : Setup} {fuel : Nat} {b₀ : Base} {t t' : Tracked} {i : Incoming}
  {out : Int × Local} {closing : Prop}

theorem Tracked.serve_some (hs : t.serve P E fuel i = some (out, t')) :
    t.session.serve (posix P) E fuel i = some (out, t'.session) ∧
      t'.opened = t.openedAfter P E fuel i out.1 := by
  unfold Tracked.serve at hs
  obtain ⟨r, hr, he⟩ := Option.map_eq_some_iff.mp hs
  cases he
  exact ⟨hr, rfl⟩

def Tracked.atBody (P : Platform) (E : Setup) (t : Tracked) (i : Incoming) : Tracked :=
  ⟨t.session.atBody i (posix P) E, t.opened⟩

theorem Tracked.atBody_sameTable (P : Platform) (E : Setup) (t : Tracked) (i : Incoming) :
    SameTable t.base (t.atBody P E i).base :=
  Posix.atBody_sameTable P E t.base i.request.path

theorem HandleInv.atBody (hi : HandleInv b₀ t closing) : HandleInv b₀ (t.atBody P E i) closing :=
  hi.congr (t.atBody_sameTable P E i).sameOpen rfl rfl

theorem HandleInv.injected (hi : HandleInv b₀ t closing) (hg : t.Opening P E fuel i)
    (hclosing : closing → i.request.closes = true → t.session.code i (posix P) E = 0)
    (hc : t.session.code i (posix P) E ≠ 0) (hs : t.serve P E fuel i = some (out, t')) :
    HandleInv b₀ t' closing := by
  obtain ⟨hs, ho⟩ := Tracked.serve_some hs
  obtain ⟨hout, hw, hh⟩ := Session.serve_injected hc hs
  have hbase : t'.base = t.base := by
    unfold Tracked.base
    rw [hw, decided_base, atBody_of_decision hc]
  cases hopen : i.request.opens? with
  | none =>
    have ho' : t'.opened = t.opened := by
      rw [ho]
      simp [Tracked.openedAfter, hopen]
    rw [Session.handlesAfter_closed hopen] at hh
    split at hh
    · rename_i hclose
      exact hi.lost (fun h => hc (hclosing h hclose)) hbase hh ho'
    · exact hi.congr (hbase ▸ (SameTable.refl _).sameOpen) hh ho'
  | some flags =>
    have hrc : out.1 ≠ 0 := by
      rw [hout, if_neg (hg.opening (by simp [hopen]))]
      exact hc
    refine hi.congr (hbase ▸ (SameTable.refl _).sameOpen) ?_ ?_
    · rw [hh]
      simp [Session.handlesAfter, hopen, hrc, Session.fileInfo]
    · rw [ho]
      simp [Tracked.openedAfter, hrc]

theorem Tracked.Succeeding.performed (hg : t.Succeeding P E fuel i)
    (hc : t.session.code i (posix P) E = 0) (hs : t.serve P E fuel i = some (out, t')) {c : Sys}
    (hcall : i.request.call? (t.session.locals i).fi = some c) : ∃ ret d,
      (kernel P c (t.atBody P E i).base).1 = .done ret d ∧
      t'.base = (kernel P c (t.atBody P E i).base).2 ∧
      out = i.request.succeed ((i.request.prepare (t.session.locals i)).store d) ret ∧
      t'.session.handles = t.session.handlesAfter i out.1 out.2.fi ∧
      t'.opened = t.openedAfter P E fuel i out.1 := by
  obtain ⟨hs, ho⟩ := Tracked.serve_some hs
  obtain ⟨b', hr, hw, hh⟩ := Session.serve_executed hc hs
  have hsucc := hg.succeed
  unfold Tracked.calls at hsucc
  rw [Session.calls_executed hc, Request.trace_of_call? hcall] at hsucc
  rw [Request.run_of_call? hcall] at hr
  obtain ⟨ret, d, he⟩ := hsucc.done (List.mem_cons_self ..)
  dsimp only at he
  cases hr
  rw [he] at hh ho ⊢
  exact ⟨ret, d, he, congrArg World.base hw, rfl, hh, ho⟩

theorem opened_session {flags : OpenFlags} {c : Sys} {ret : Nat} {d : Data}
    (hopen : i.request.opens? = some flags)
    (hcall : i.request.call? (some { flags }) = some c)
    (hout : out = i.request.succeed ((i.request.prepare (t.session.locals i)).store d) ret)
    (hret : ret < 2 ^ 64) (hc : t.session.code i (posix P) E = 0)
    (hh : t'.session.handles = t.session.handlesAfter i out.1 out.2.fi)
    (ho : t'.opened = t.openedAfter P E fuel i out.1) :
    t'.session.handles = Function.update t.session.handles i.handle
        (some ⟨{ flags, fh := ret }, i.request.path, Session.kindOpened i.request⟩) ∧
      t'.opened = Function.update t.opened i.handle (some (t.atBody P E i).base.nextDesc) := by
  have hfi : (t.session.locals i).fi = some { flags } :=
    Session.fi_locals_opens hopen
  have hcalls : (t.calls P E fuel i).isEmpty = false := by
    unfold Tracked.calls
    rw [Session.calls_executed hc, Request.trace_of_call? (hfi ▸ hcall)]
    rfl
  obtain ⟨hrc, hafter⟩ := Session.handlesAfter_opened hopen hret hout
  refine ⟨hh.trans hafter, ?_⟩
  rw [ho, (t.atBody_sameTable P E i).nextDesc]
  simp [Tracked.openedAfter, hopen, hcalls, hrc]

theorem HandleInv.executed_open (hi : HandleInv b₀ t closing) (hg : t.Succeeding P E fuel i)
    (hc : t.session.code i (posix P) E = 0) (hs : t.serve P E fuel i = some (out, t'))
    {flags : OpenFlags} {path : CStr} {mode : Nat} (hopen : i.request.opens? = some flags)
    (hk : Session.kindOpened i.request = .file)
    (hcall : i.request.call? (some { flags }) = some (.open path flags mode)) :
    HandleInv b₀ t' closing := by
  have hfi : (t.session.locals i).fi = some { flags } := Session.fi_locals_opens hopen
  obtain ⟨ret, d, hd, hbase, hout, hh, ho⟩ := hg.performed hc hs (hfi ▸ hcall)
  obtain ⟨hfree, tree, ino, -, hb⟩ := kernel_open hd
  obtain ⟨hnone, hlt⟩ := Base.freeFd_ok hfree
  have hlt' := (t.atBody P E i).base.nofile_le
  obtain ⟨hh', ho'⟩ := opened_session hopen hcall hout (by omega) hc hh ho
  rw [hk] at hh'
  exact hi.atBody.opened_file hfree (hg.proper.fresh (by simp [hopen])) (hbase.trans hb) hh' ho'

theorem HandleInv.executed_opendir (hi : HandleInv b₀ t closing) (hg : t.Succeeding P E fuel i)
    (hc : t.session.code i (posix P) E = 0) (hs : t.serve P E fuel i = some (out, t'))
    {path : CStr} (hreq : i.request = .opendir path) : HandleInv b₀ t' closing := by
  have hopen : i.request.opens? = some {} := by rw [hreq]; rfl
  have hk : Session.kindOpened i.request = .dir := by rw [hreq]; rfl
  have hcall : i.request.call? (some { flags := {} }) = some (.opendir path) := by rw [hreq]; rfl
  have hfi : (t.session.locals i).fi = some { flags := {} } := Session.fi_locals_opens hopen
  obtain ⟨ret, d, hd, hbase, hout, hh, ho⟩ := hg.performed hc hs (hfi ▸ hcall)
  obtain ⟨p, ino, fd, -, hfree, hstream, -, hlt, hb⟩ := kernel_opendir hd
  obtain ⟨hnone, -⟩ := Base.freeFd_ok hfree
  obtain ⟨hh', ho'⟩ := opened_session hopen hcall hout hlt hc hh ho
  rw [hk] at hh'
  exact hi.atBody.opened_dir hfree hstream (hg.proper.fresh (by simp [hopen])) (hbase.trans hb) hh' ho'

theorem HandleInv.executed_release (hi : HandleInv b₀ t closing) (hg : t.Succeeding P E fuel i)
    (hc : t.session.code i (posix P) E = 0) (hs : t.serve P E fuel i = some (out, t'))
    {path : CStr} (hreq : i.request = .release path) : HandleInv b₀ t' closing := by
  have hopen : i.request.opens? = none := by rw [hreq]; rfl
  obtain ⟨h, hid, hk, hfi⟩ := hg.proper.fileInfo (k := .file) (by rw [hreq]; rfl)
  have hcall : i.request.call? (some h.fi) = some (.close (toInt h.fi.fh)) := by rw [hreq]; rfl
  obtain ⟨ret, d, hd, hbase, -, hh, ho⟩ := hg.performed hc hs (hfi ▸ hcall)
  obtain ⟨hlt, -, -⟩ := (hi.owns i.handle h hid).file hk
  have hfh : toInt h.fi.fh = h.fi.fh := toInt_of_small (by omega) (by omega)
  obtain ⟨d', -, hb⟩ := kernel_close hd
  simp only [hfh, Int.toNat_natCast] at hbase hb
  refine hi.atBody.closed_file hid hk (hbase.trans hb) ?_ ?_
  · rw [hh, Session.handlesAfter_closed hopen, hreq]
    rfl
  · rw [ho]
    simp [Tracked.openedAfter, hopen, Tracked.atBody]

theorem HandleInv.executed_releasedir (hi : HandleInv b₀ t closing) (hg : t.Succeeding P E fuel i)
    (hc : t.session.code i (posix P) E = 0) (hs : t.serve P E fuel i = some (out, t'))
    {path : CStr} (hreq : i.request = .releasedir path) : HandleInv b₀ t' closing := by
  have hopen : i.request.opens? = none := by rw [hreq]; rfl
  obtain ⟨h, hid, hk, hfi⟩ := hg.proper.fileInfo (k := .dir) (by rw [hreq]; rfl)
  have hcall : i.request.call? (some h.fi) = some (.closedir h.fi.fh) := by rw [hreq]; rfl
  obtain ⟨ret, d, hd, hbase, -, hh, ho⟩ := hg.performed hc hs (hfi ▸ hcall)
  obtain ⟨st, d', hst, -, hb⟩ := kernel_closedir hd
  obtain ⟨-, hst⟩ := Base.stream_ok.mp hst
  rw [Int.toNat_natCast] at hst hb
  refine hi.atBody.closed_dir hid hk hst (hbase.trans hb) ?_ ?_
  · rw [hh, Session.handlesAfter_closed hopen, hreq]
    rfl
  · rw [ho]
    simp [Tracked.openedAfter, hopen, Tracked.atBody]

theorem HandleInv.executed_same (hi : HandleInv b₀ t closing) (hc : t.session.code i (posix P) E = 0)
    (hs : t.serve P E fuel i = some (out, t')) (hopen : i.request.opens? = none)
    (hclose : i.request.closes = false) (hb : SameTable (t.atBody P E i).base t'.base) :
    HandleInv b₀ t' closing := by
  obtain ⟨hs', ho⟩ := Tracked.serve_some hs
  obtain ⟨b', hr, hw, hh⟩ := Session.serve_executed hc hs'
  refine hi.atBody.congr hb.sameOpen ?_ ?_
  · rw [hh, Session.handlesAfter_closed hopen, hclose]
    rfl
  · rw [ho]
    simp [Tracked.openedAfter, hopen, Tracked.atBody]

theorem HandleInv.executed (hi : HandleInv b₀ t closing) (hg : t.Succeeding P E fuel i)
    (hc : t.session.code i (posix P) E = 0) (hs : t.serve P E fuel i = some (out, t')) :
    HandleInv b₀ t' closing := by
  have hin := hg.inRun
  obtain ⟨hs', -⟩ := Tracked.serve_some hs
  obtain ⟨b', hr, hw, -⟩ := Session.serve_executed hc hs'
  have hbase : t'.base = b' := congrArg World.base hw
  cases hreq : i.request with
  | «open» path flags =>
    exact hi.executed_open hg hc hs (by rw [hreq]; rfl) (by rw [hreq]; rfl)
      (by rw [hreq]; rfl)
  | create path flags mode =>
    exact hi.executed_open hg hc hs (by rw [hreq]; rfl) (by rw [hreq]; rfl)
      (by rw [hreq]; rfl)
  | opendir path => exact hi.executed_opendir hg hc hs hreq
  | release path => exact hi.executed_release hg hc hs hreq
  | releasedir path => exact hi.executed_releasedir hg hc hs hreq
  | flush path =>
    refine hi.executed_same hc hs (by rw [hreq]; rfl) (by rw [hreq]; rfl) ?_
    obtain ⟨h, -, -, hfi⟩ := hg.proper.fileInfo (k := .file) (by rw [hreq]; rfl)
    have hsucc := hg.succeed
    unfold Tracked.calls at hsucc
    rw [Session.calls_executed hc] at hsucc
    rw [hreq] at hsucc hr
    obtain ⟨d, new, -, -, _, -, hfree, hr', -⟩ := flush_run hfi hsucc
    cases hr.symm.trans hr'
    rw [hbase]
    exact sameTable_dup_close hfree
  | read | write | fsync | ftruncate | fgetattr | lock | flock | ioctl | fallocate =>
    refine hi.executed_same hc hs (by rw [hreq]; rfl) (by rw [hreq]; rfl) ?_
    obtain ⟨h, -, -, hfi⟩ := hg.proper.fileInfo (k := .file) (by rw [hreq]; rfl)
    rw [hbase]
    exact quiet_sameTable (by rw [hreq]; rfl) hfi hr
  | _ =>
    rw [hreq] at hin
    cases hin

theorem HandleInv.step (hi : HandleInv b₀ t closing) (hg : t.Opening P E fuel i)
    (hclosing : closing → i.request.closes = true → t.session.code i (posix P) E = 0)
    (hs : t.serve P E fuel i = some (out, t')) : HandleInv b₀ t' closing := by
  by_cases hc : t.session.code i (posix P) E = 0
  · exact hi.executed hg.toSucceeding hc hs
  · exact hi.injected hg hclosing hc hs

theorem HandleInv.run {w : World Base}
    (h : Reachable (Tracked.serve P E fuel) (Tracked.Opening P E fuel) (Tracked.start w) t) :
    HandleInv w.base t False :=
  h.invariant (I := fun t => HandleInv w.base t False)
    (fun _ _ _ _ hi hg hs => hi.step hg (fun hf => hf.elim) hs) (HandleInv.start w)

theorem HandleInv.run_closing {w : World Base}
    (h : Reachable (Tracked.serve P E fuel) (Tracked.Guarded P E fuel) (Tracked.start w) t) :
    HandleInv w.base t True :=
  h.invariant (I := fun t => HandleInv w.base t True)
    (fun _ _ _ _ hi hg hs => hi.step hg.toOpening (fun _ => hg.closing) hs) (HandleInv.start w)

-- ---------------------------------------------------------------------------
-- What the calls act on
-- ---------------------------------------------------------------------------

theorem HandleInv.desc_own (hi : HandleInv b₀ t closing) {id : Nat} {h : Handle}
    (hid : t.session.handles id = some h) (hk : h.kind = .file) :
    ∃ d, t.base.desc (toInt h.fi.fh) = .ok d ∧ t.opened id = some d.id := by
  obtain ⟨hlt, -, d, hd, ho⟩ := (hi.owns id h hid).file hk
  have hfh : toInt h.fi.fh = h.fi.fh := toInt_of_small (by omega) (by omega)
  exact ⟨d, Base.desc_ok.mpr ⟨by omega, by rw [hfh, Int.toNat_natCast, hd]⟩, ho⟩

theorem HandleInv.onOwn (hi : HandleInv b₀ t closing) (hg : t.Succeeding P E fuel i) :
    ∀ e ∈ t.calls P E fuel i, OnOwn t i.handle e := by
  by_cases hc : t.session.code i (posix P) E = 0
  · have hi := hi.atBody (P := P) (E := E) (i := i)
    have hone {c : Sys} {l : Local} (hl : t.session.locals i = l) (hcall : i.request.call? l.fi = some c)
        (hown : OnOwn t i.handle ⟨(t.atBody P E i).base, c, (kernel P c (t.atBody P E i).base).1⟩) :
        ∀ e ∈ t.calls P E fuel i, OnOwn t i.handle e := by
      subst hl
      unfold Tracked.calls
      rw [Session.calls_executed hc, Request.trace_of_call? hcall]
      intro e he
      cases List.mem_singleton.mp he
      exact hown
    have hfile (hk : i.request.handleKind? = some .file) : ∃ (h : Handle) (d : Desc),
        (t.session.locals i).fi = some h.fi ∧ (t.atBody P E i).base.desc (toInt h.fi.fh) = .ok d ∧
          t.opened i.handle = some d.id := by
      obtain ⟨h, hid, hkind, hfi⟩ := hg.proper.fileInfo hk
      obtain ⟨d, hd, ho⟩ := hi.desc_own hid hkind
      exact ⟨h, d, hfi, hd, ho⟩
    have hin := hg.inRun
    cases hreq : i.request with
    | «open» path flags | create path flags mode =>
      have hopen : (t.session.locals i).fi = some { flags } := by
        simp only [Session.locals, Session.fileInfo, hreq, Request.opens?]
      exact hone rfl (by rw [hreq, hopen]; rfl) ⟨by rintro _ ⟨⟩, by rintro _ ⟨⟩⟩
    | opendir path => exact hone rfl (by rw [hreq]; rfl) ⟨by rintro _ ⟨⟩, by rintro _ ⟨⟩⟩
    | release path =>
      obtain ⟨h, d, hfi, hd, ho⟩ := hfile (by rw [hreq]; rfl)
      exact hone rfl (by rw [hreq, hfi]; rfl) ⟨by rintro _ ⟨⟩; exact ⟨d, hd, ho⟩, by rintro _ ⟨⟩⟩
    | releasedir path =>
      obtain ⟨h, hid, hkind, hfi⟩ := hg.proper.fileInfo (k := .dir) (by rw [hreq]; rfl)
      obtain ⟨-, st, d, hst, -, hd, ho⟩ := (hi.owns i.handle h hid).dir hkind
      refine hone rfl (by rw [hreq, hfi]; rfl) ⟨by rintro _ ⟨⟩, ?_⟩
      rintro _ ⟨⟩
      refine ⟨st, d, ?_, ?_, ho⟩
      · exact Base.stream_ok.mpr ⟨by omega, hst⟩
      · exact Base.desc_ok.mpr ⟨by omega, hd⟩
    | flush path =>
      obtain ⟨h, d, hfi, hd, ho⟩ := hfile (by rw [hreq]; rfl)
      have hsucc := hg.succeed
      unfold Tracked.calls at hsucc ⊢
      rw [Session.calls_executed hc, hreq] at hsucc ⊢
      obtain ⟨d', new, r₁, r₂, -, hdesc, -, -, htr⟩ := flush_run hfi hsucc
      cases hd.symm.trans hdesc
      intro e he
      have he := htr ▸ he
      simp only [List.mem_cons, List.not_mem_nil, or_false] at he
      obtain rfl | rfl := he
      · exact ⟨by rintro _ ⟨⟩; exact ⟨d, hd, ho⟩, by rintro _ ⟨⟩⟩
      · -- the copy is of the same open file description
        refine ⟨?_, by rintro _ ⟨⟩⟩
        rintro _ ⟨⟩
        refine ⟨d, Base.desc_ok.mpr ⟨by omega, ?_⟩, ho⟩
        exact Function.update_self ..
    | read | write | fsync | ftruncate | fgetattr | lock | flock | ioctl | fallocate =>
      obtain ⟨h, d, hfi, hd, ho⟩ := hfile (by rw [hreq]; rfl)
      have hq : i.request.quiet = true := by rw [hreq]; rfl
      cases hcall : i.request.call? (some h.fi) with
      | none =>
        obtain ⟨out, hb⟩ := quiet_no_call hq hfi hcall
        unfold Tracked.calls
        rw [Session.calls_executed hc, hb]
        intro e he
        cases he
      | some c =>
        obtain ⟨-, hstream, hdesc⟩ := quiet_call? hq hcall
        refine hone rfl (hfi ▸ hcall) ⟨?_, ?_⟩
        · intro fd hfd
          obtain hown | ⟨_, _, -, rfl⟩ := hdesc
          · cases hown.symm.trans hfd
            exact ⟨d, hd, ho⟩
          · cases hfd
        · intro a ha
          rw [hstream] at ha
          cases ha
    | _ =>
      rw [hreq] at hin
      cases hin
  · unfold Tracked.calls
    rw [Session.calls_injected hc]
    intro e he
    cases he

end

/-- In every state of a run in which no open is replaced by a no-op, the live handles
are different open descriptors and streams, and whatever comes next acts on what its
own open obtained. With every release let through they are all there is open. -/
theorem handles_safe (P : Platform) (E : Setup) (fuel : Nat) (w : World Base) :
    (∀ t : Tracked,
      Reachable (Tracked.serve P E fuel) (Tracked.Guarded P E fuel) (Tracked.start w) t →
      Mapped w.base t.session ∧ ∀ i, t.Succeeding P E fuel i →
        ∀ e ∈ t.calls P E fuel i, OnOwn t i.handle e) ∧
    ∀ t : Tracked,
      Reachable (Tracked.serve P E fuel) (Tracked.Opening P E fuel) (Tracked.start w) t →
      MappedInto w.base t.session ∧ ∀ i, t.Succeeding P E fuel i →
        ∀ e ∈ t.calls P E fuel i, OnOwn t i.handle e :=
  ⟨fun _ h => ⟨(HandleInv.run_closing h).mapped trivial, fun _ hg => (HandleInv.run_closing h).onOwn hg⟩,
    fun _ h => ⟨(HandleInv.run h).mappedInto, fun _ hg => (HandleInv.run h).onOwn hg⟩⟩

/-- Half of all operations are replaced by nothing, and these are chosen by `injected`. -/
def halfNoop (injected : Nat → Bool) : Tracked :=
  .start { bootWorld .root (some [{ type := .noop, probability := 50 }]) with
    draws := fun n => if injected n then 0 else 99 }

def createNew (path : CStr) (id : Nat) : Incoming :=
  ⟨.create path { acc := .rdwr, creat := true } 0o644, id, .zero⟩

theorem halfNoop_step {t₀ t : Tracked} {i : Incoming} {r : (Int × Local) × Tracked}
    {G : Tracked → Incoming → Prop}
    (h : Reachable (Tracked.serve .small (smallSetup (ascii "/c")) 0) G t₀ t) (hg : G t i)
    (hs : t.serve .small (smallSetup (ascii "/c")) 0 i = some r) :
    Reachable (Tracked.serve .small (smallSetup (ascii "/c")) 0) G t₀ r.2 :=
  h.step hg hs

/-- Two files and a directory are open, and a read has been replaced by nothing. -/
theorem handles_safe_of_three : ∃ t : Tracked, 0 ∈ t.session.live .file ∧ 1 ∈ t.session.live .file ∧
    2 ∈ t.session.live .dir ∧ Mapped (halfNoop (· = 3)).base t.session := by
  have h : Reachable (Tracked.serve .small (smallSetup (ascii "/c")) 0)
    (Tracked.Guarded .small (smallSetup (ascii "/c")) 0) (halfNoop (· = 3)) _ := .refl
  have h := halfNoop_step (i := createNew (ascii "/a") 0) h
    { proper := ⟨fun _ => rfl, by rintro _ ⟨⟩⟩
      inRun := rfl
      succeed := by unfold AllSucceed; decide
      opening := fun _ => by decide
      closing := by rintro ⟨⟩ } rfl
  have h := halfNoop_step (i := createNew (ascii "/b") 1) h
    { proper := ⟨fun _ => rfl, by rintro _ ⟨⟩⟩
      inRun := rfl
      succeed := by unfold AllSucceed; decide
      opening := fun _ => by decide
      closing := by rintro ⟨⟩ } rfl
  have h := halfNoop_step (i := ⟨.opendir (ascii "/"), 2, .zero⟩) h
    { proper := ⟨fun _ => rfl, by rintro _ ⟨⟩⟩
      inRun := rfl
      succeed := by unfold AllSucceed; decide
      opening := fun _ => by decide
      closing := by rintro ⟨⟩ } rfl
  have h := halfNoop_step (i := ⟨.read (ascii "/a") 8 0, 0, .zero⟩) h
    { proper := ⟨fun hopen => absurd rfl hopen, by rintro _ ⟨⟩; exact ⟨_, rfl, rfl⟩⟩
      inRun := rfl
      succeed := by unfold AllSucceed; decide
      opening := fun hopen => absurd rfl hopen
      closing := by rintro ⟨⟩ } rfl
  refine ⟨_, ?_, ?_, ?_, ((handles_safe .small (smallSetup (ascii "/c")) 0 _).1 _ h).1⟩
  · exact ⟨_, rfl, rfl⟩
  · exact ⟨_, rfl, rfl⟩
  · exact ⟨_, rfl, rfl⟩

/-- With every operation a no-op, an open returns 0 and leaves a handle on the
daemon's own descriptor 0. -/
theorem not_mapped_under_noop : ∃ t : Tracked,
    Reachable (Tracked.serve .small (smallSetup (ascii "/c")) 0)
      (Tracked.Succeeding .small (smallSetup (ascii "/c")) 0)
      (Tracked.start (bootWorld .root (some [{ type := .noop, probability := 100 }]))) t ∧
    ¬Mapped (bootWorld .root (some [{ type := .noop, probability := 100 }])).base t.session := by
  let i : Incoming := ⟨.open (ascii "/a") {}, 0, .zero⟩
  let t₀ := Tracked.start (bootWorld .root (some [{ type := .noop, probability := 100 }]))
  obtain ⟨⟨out, t⟩, hs⟩ := Option.isSome_iff_exists.mp
    (by decide : (Tracked.serve .small (smallSetup (ascii "/c")) 0 t₀ i).isSome)
  have hg : t₀.Succeeding .small (smallSetup (ascii "/c")) 0 i :=
    { proper := ⟨fun _ => rfl, by rintro _ ⟨⟩⟩
      inRun := rfl
      succeed := by unfold AllSucceed; decide }
  have hrc : ((Tracked.serve .small (smallSetup (ascii "/c")) 0 t₀ i).map fun r =>
      (r.2.session.handles 0).map fun h => (h.kind, h.fi.fh)) = some (some (.file, 0)) := by decide
  rw [hs] at hrc
  obtain ⟨h, hid, hk⟩ := Option.map_eq_some_iff.mp (Option.some.inj hrc)
  refine ⟨t, .step .refl hg hs, fun hm => ?_⟩
  have hfd := hm.files.mapsTo ⟨h, hid, congrArg Prod.fst hk⟩
  have hfh : t.session.fhOf 0 = 0 := by
    unfold Session.fhOf
    rw [hid]
    exact congrArg Prod.snd hk
  rw [hfh] at hfd
  exact absurd hfd.2.1 (by decide)

/-- A release that is replaced by nothing leaves its descriptor open without a handle. -/
theorem not_mapped_after_release : ∃ t : Tracked,
    Reachable (Tracked.serve .small (smallSetup (ascii "/c")) 0)
      (Tracked.Opening .small (smallSetup (ascii "/c")) 0) (halfNoop (· = 1)) t ∧
    ¬Mapped (halfNoop (· = 1)).base t.session := by
  have h : Reachable (Tracked.serve .small (smallSetup (ascii "/c")) 0)
    (Tracked.Opening .small (smallSetup (ascii "/c")) 0) (halfNoop (· = 1)) _ := .refl
  have h := halfNoop_step (i := createNew (ascii "/a") 0) h
    { proper := ⟨fun _ => rfl, by rintro _ ⟨⟩⟩
      inRun := rfl
      succeed := by unfold AllSucceed; decide
      opening := fun _ => by decide } rfl
  have h := halfNoop_step (i := ⟨.release (ascii "/a"), 0, .zero⟩) h
    { proper := ⟨fun hopen => absurd rfl hopen, by rintro _ ⟨⟩; exact ⟨_, rfl, rfl⟩⟩
      inRun := rfl
      succeed := by unfold AllSucceed; decide
      opening := fun hopen => absurd rfl hopen } rfl
  refine ⟨_, h, fun hm => ?_⟩
  obtain ⟨id, ⟨h, hid, -⟩, -⟩ := hm.files.surjOn (a := 3)
    ⟨Option.some_ne_none _, rfl, fun a ha => absurd rfl ha.1⟩
  -- no handle is left
  by_cases h₀ : id = 0
  · subst h₀
    cases hid
  · have hnone : (Function.update (Function.update (fun _ : Nat => (none : Option Handle)) 0 _) 0 none) id =
        some h := hid
    rw [Function.update_of_ne h₀, Function.update_of_ne h₀] at hnone
    cases hnone

end UnreliableFS
