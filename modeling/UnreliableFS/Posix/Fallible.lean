import UnreliableFS.Posix.Laws

/-!
# A kernel whose calls may fail

`fallible` answers as `kernel` does, except that any call may fail instead, with
any errno. A call that fails changes nothing, but for `close` and `closedir`,
which free what they are given even when they report an error. `Follows` is what
the two kernels have in common.
-/

namespace UnreliableFS.Posix

open Interaction

structure Fallible where
  base : Base
  failures : Nat → Option Errno

/-- Whether a call frees something even when it fails. -/
def Sys.frees : Sys → Bool
  | .close .. | .closedir .. => true
  | _ => false

def fallible (P : Platform) : Handler sysSig Fallible := fun c s =>
  match s.failures 0 with
  | none => ((kernel P c s.base).1, ⟨(kernel P c s.base).2, fun n => s.failures (n + 1)⟩)
  | some e => (.fail e, ⟨if Sys.frees c then (kernel P c s.base).2 else s.base,
      fun n => s.failures (n + 1)⟩)

theorem fallible_failures (P : Platform) (c : Sys) (s : Fallible) (n : Nat) :
    (fallible P c s).2.failures n = s.failures (n + 1) := by
  unfold fallible
  split
  · rfl
  · rfl

def falliblePosix (P : Platform) : OS Fallible where
  kernel := fallible P
  access := fun s => (posix P).access s.base
  slurp := fun s => (posix P).slurp s.base
  slurped := fun s path => { s with base := s.base.slurped path }

/-- A handler that answers as `kernel` does, or fails. -/
structure Follows {σ : Type} (P : Platform) (K : Handler sysSig σ) (base : σ → Base) : Prop where
  answers : ∀ c s,
    ((K c s).1 = (kernel P c (base s)).1 ∧ base (K c s).2 = (kernel P c (base s)).2) ∨
      ((∃ e, (K c s).1 = .fail e) ∧
        base (K c s).2 = if Sys.frees c then (kernel P c (base s)).2 else base s)

theorem kernel_follows (P : Platform) : Follows P (kernel P) id :=
  ⟨fun _ _ => .inl ⟨rfl, rfl⟩⟩

theorem fallible_follows (P : Platform) : Follows P (fallible P) Fallible.base := by
  refine ⟨fun c s => ?_⟩
  unfold fallible
  cases s.failures 0 with
  | none => exact .inl ⟨rfl, rfl⟩
  | some e => exact .inr ⟨⟨e, rfl⟩, rfl⟩

structure FollowsPosix {σ : Type} (P : Platform) (os : OS σ) (base : σ → Base) : Prop
    extends Follows P os.kernel base where
  slurped : ∀ s path, ∃ locks, base (os.slurped s path) = { base s with locks }

theorem falliblePosix_follows (P : Platform) : FollowsPosix P (falliblePosix P) Fallible.base :=
  ⟨fallible_follows P, fun s path => slurped_locks s.base path⟩

theorem posix_follows (P : Platform) : FollowsPosix P (posix P) id :=
  ⟨kernel_follows P, slurped_locks⟩

theorem FollowsPosix.atBody {σ : Type} {P : Platform} {os : OS σ} {base : σ → Base}
    (hK : FollowsPosix P os base) (E : Setup) (s : σ) (path : CStr) :
    ∃ locks, base (os.atBody E s path) = { base s with locks } :=
  os.atBody_keeps E (fun s s' => ∃ locks, base s' = { base s with locks })
    (fun s => ⟨(base s).locks, rfl⟩) hK.slurped s path

theorem kernel_fail_of_ne {P : Platform} {b : Base} {c : Sys} {e : Errno}
    (h : (kernel P c b).1 = .fail e) (hc : ∀ fd op, c ≠ .flock fd op) : (kernel P c b).2 = b := by
  have halter {r : Except Errno (Tree × Nat)} (h : (b.alter r).1 = .fail e) : (b.alter r).2 = b := by
    rcases r with e | ⟨tree, ret⟩
    · rfl
    · cases h
  cases c with
  | flock fd op => exact absurd rfl (hc fd op)
  | «open» | dup | close | opendir | readdir | closedir | fcntl => exact Base.enter_fail h
  | lstat | readlink | pread | statvfs | fdatasync | fsync | getxattr | listxattr | dirfd | access
  | fstat | ioctl => exact Base.inspect_snd _
  | mknod | mkdir | unlink | rmdir | symlink | rename | link | chmod | chown | truncate | pwrite
  | setxattr | removexattr | fallocate | utimensat => exact halter h

/-- A failed call changes nothing, but that a failed `flock` may lose a lock. -/
theorem kernel_fail {P : Platform} {b : Base} {c : Sys} {e : Errno} (h : (kernel P c b).1 = .fail e) :
    ∃ flocks, (kernel P c b).2 = { b with flocks } := by
  by_cases hf : ∃ fd op, c = .flock fd op
  · obtain ⟨fd, op, rfl⟩ := hf
    exact flock_snd fd op
  · exact ⟨b.flocks, kernel_fail_of_ne h fun fd op he => hf ⟨fd, op, he⟩⟩

namespace Follows

variable {σ : Type} {P : Platform} {K : Handler sysSig σ} {base : σ → Base} {c : Sys} {s : σ}

theorem done (hK : Follows P K base) {ret : Nat} {d : Data} (h : (K c s).1 = .done ret d) :
    (kernel P c (base s)).1 = .done ret d ∧ base (K c s).2 = (kernel P c (base s)).2 := by
  obtain ⟨ha, hb⟩ | ⟨⟨e, he⟩, -⟩ := hK.answers c s
  · exact ⟨ha ▸ h, hb⟩
  · rw [he] at h
    cases h

theorem fail (hK : Follows P K base) (hc : Sys.frees c = false) {e : Errno}
    (h : (K c s).1 = .fail e) : ∃ flocks, base (K c s).2 = { base s with flocks } := by
  obtain ⟨ha, hb⟩ | ⟨-, hb⟩ := hK.answers c s
  · rw [hb]
    exact kernel_fail (ha ▸ h)
  · exact ⟨(base s).flocks, by simpa [hc] using hb⟩

theorem fail_of_ne (hK : Follows P K base) (hc : Sys.frees c = false)
    (hf : ∀ fd op, c ≠ .flock fd op) {e : Errno} (h : (K c s).1 = .fail e) :
    base (K c s).2 = base s := by
  obtain ⟨ha, hb⟩ | ⟨-, hb⟩ := hK.answers c s
  · rw [hb]
    exact kernel_fail_of_ne (ha ▸ h) hf
  · simpa [hc] using hb

theorem fail_sameOpen (hK : Follows P K base) (hc : Sys.frees c = false) {e : Errno}
    (h : (K c s).1 = .fail e) : SameOpen (base s) (base (K c s).2) := by
  obtain ⟨flocks, hb⟩ := hK.fail hc h
  rw [hb]
  exact SameTable.sameOpen ⟨rfl, rfl, rfl⟩

theorem freed (hK : Follows P K base) (hc : Sys.frees c = true) :
    base (K c s).2 = (kernel P c (base s)).2 := by
  obtain ⟨-, hb⟩ | ⟨-, hb⟩ := hK.answers c s
  · exact hb
  · simpa [hc] using hb

theorem sameTable (hK : Follows P K base) (hc : changesTable c = false) :
    SameTable (base s) (base (K c s).2) := by
  obtain ⟨-, hb⟩ | ⟨-, hb⟩ := hK.answers c s
  · rw [hb]
    exact kernel_sameTable hc
  · have hf : Sys.frees c = false := by
      cases c with
      | close | closedir => cases hc
      | _ => rfl
    simp only [hf, Bool.false_eq_true, ↓reduceIte] at hb
    rw [hb]
    exact .refl _

end Follows

-- ---------------------------------------------------------------------------
-- What is open for a while
-- ---------------------------------------------------------------------------

structure WithFd (b b₁ : Base) (fd : Nat) : Prop where
  free : b.fds fd = none
  fds : ∃ d, b₁.fds = Function.update b.fds fd (some d)
  streams : b₁.streams = b.streams
  nextDesc : b.nextDesc ≤ b₁.nextDesc

structure WithDir (b b₁ : Base) (a : Nat) (rest : List Dirent) : Prop where
  unused : b.streams a = none
  opened : ∃ fd d, b.fds fd = none ∧ b₁.fds = Function.update b.fds fd (some d) ∧
    b₁.streams = Function.update b.streams a (some ⟨fd, rest⟩)
  nextDesc : b.nextDesc ≤ b₁.nextDesc

variable {σ : Type} {P : Platform} {K : Handler sysSig σ} {base : σ → Base} {s : σ} {b b₁ b₂ : Base}
  {fd a ret : Nat} {rest : List Dirent} {data : Data}

theorem WithFd.congr (h : WithFd b b₁ fd) (hb : SameTable b₁ b₂) : WithFd b b₂ fd :=
  ⟨h.free, hb.fds ▸ h.fds, hb.streams.trans h.streams, hb.nextDesc ▸ h.nextDesc⟩

theorem WithDir.congr (h : WithDir b b₁ a rest) (hb : SameTable b₁ b₂) : WithDir b b₂ a rest :=
  ⟨h.unused, by rw [hb.fds, hb.streams]; exact h.opened, hb.nextDesc ▸ h.nextDesc⟩

theorem WithFd.desc (h : WithFd b b₁ fd) : ∃ d, b₁.desc (fd : Int) = .ok d ∧
    b₁.fds = Function.update b.fds fd (some d) := by
  obtain ⟨d, hd⟩ := h.fds
  exact ⟨d, Base.desc_ok.mpr ⟨Int.natCast_nonneg fd, by simp [hd]⟩, hd⟩

theorem WithDir.stream (h : WithDir b b₁ a rest) : ∃ fd d, b₁.stream (a : Int) = .ok ⟨fd, rest⟩ ∧
    b₁.desc (fd : Int) = .ok d ∧ b.fds fd = none ∧ b₁.fds = Function.update b.fds fd (some d) ∧
    b₁.streams = Function.update b.streams a (some ⟨fd, rest⟩) := by
  obtain ⟨fd, d, hfree, hfds, hstreams⟩ := h.opened
  exact ⟨fd, d, Base.stream_ok.mpr ⟨Int.natCast_nonneg a, by simp [hstreams]⟩,
    Base.desc_ok.mpr ⟨Int.natCast_nonneg fd, by simp [hfds]⟩, hfree, hfds, hstreams⟩

theorem WithDir.dirfd (h : WithDir b b₁ a rest) : ∃ fd d,
    kernel P (.dirfd a) b₁ = (.done fd .none, b₁) ∧ b₁.desc (fd : Int) = .ok d := by
  obtain ⟨fd, d, hst, hdesc, -⟩ := h.stream
  refine ⟨fd, d, ?_, hdesc⟩
  simp only [kernel, hst]
  rfl

theorem Follows.open_done (hK : Follows P K base) {path : CStr} {flags : OpenFlags} {mode : Nat}
    (h : (K (.open path flags mode) s).1 = .done ret data) :
    WithFd (base s) (base (K (.open path flags mode) s).2) ret := by
  obtain ⟨hd, hb⟩ := hK.done h
  obtain ⟨hfree, tree, i, -, hb'⟩ := kernel_open hd
  rw [hb, hb']
  exact ⟨(Base.freeFd_ok hfree).1, ⟨_, rfl⟩, rfl, Nat.le_succ _⟩

theorem Follows.dup_done (hK : Follows P K base) {fd : Int}
    (h : (K (.dup fd) s).1 = .done ret data) : WithFd (base s) (base (K (.dup fd) s).2) ret := by
  obtain ⟨hd, hb⟩ := hK.done h
  obtain ⟨d, -, hfree, hb'⟩ := kernel_dup hd
  rw [hb, hb']
  exact ⟨(Base.freeFd_ok hfree).1, ⟨_, rfl⟩, rfl, Nat.le_refl _⟩

theorem Follows.opendir_done (hK : Follows P K base) {path : CStr}
    (h : (K (.opendir path) s).1 = .done ret data) :
    0 < ret ∧ ∃ rest, WithDir (base s) (base (K (.opendir path) s).2) ret rest := by
  obtain ⟨hd, hb⟩ := hK.done h
  obtain ⟨p, i, fd, -, hfree, hstream, hpos, -, hb'⟩ := kernel_opendir hd
  rw [hb, hb']
  exact ⟨hpos, _, hstream, ⟨fd, _, (Base.freeFd_ok hfree).1, rfl, rfl⟩, Nat.le_succ _⟩

/-- Closing the descriptor leaves what was open before, whatever it returns. -/
theorem Follows.close (hK : Follows P K base) (h : WithFd b (base s) fd) :
    SameOpen b (base (K (.close fd) s).2) := by
  obtain ⟨d, hdesc, hd⟩ := h.desc
  rw [hK.freed rfl, kernel_close_of_desc hdesc]
  constructor
  case fds =>
    simp only [Base.closeFd, Base.setFd, Int.toNat_natCast, hd, Function.update_idem]
    rw [← h.free, Function.update_eq_self]
  case streams => exact h.streams
  case nextDesc => exact h.nextDesc

theorem Follows.closedir (hK : Follows P K base) (h : WithDir b (base s) a rest) :
    SameOpen b (base (K (.closedir a) s).2) := by
  obtain ⟨fd, d, hst, hdesc, hfree, hfds, hstreams⟩ := h.stream
  rw [hK.freed rfl, kernel_closedir_of_stream hst hdesc]
  constructor
  case fds =>
    simp only [Base.closeFd, Base.setFd, Base.setStream, hfds, Function.update_idem]
    rw [← hfree, Function.update_eq_self]
  case streams =>
    simp only [Base.closeFd, Base.setFd, Base.setStream, Int.toNat_natCast, hstreams,
      Function.update_idem]
    rw [← h.unused, Function.update_eq_self]
  case nextDesc => exact h.nextDesc

theorem Follows.close_none (hK : Follows P K base) : base (K (.close (-1)) s).2 = base s := by
  rw [hK.freed rfl]
  rfl

theorem Follows.readdir_done (hK : Follows P K base) (h : WithDir b (base s) a rest)
    (hr : (K (.readdir a) s).1 = .done ret data) :
    (ret = 0 ∧ WithDir b (base (K (.readdir a) s).2) a rest) ∨
      ∃ de rest', rest = de :: rest' ∧ WithDir b (base (K (.readdir a) s).2) a rest' := by
  obtain ⟨hd, hb⟩ := hK.done hr
  obtain ⟨fd, d, hst, -, hfree, hfds, hstreams⟩ := h.stream
  simp only [kernel, Base.readdir, hst] at hd hb
  cases rest with
  | nil =>
    cases hd
    rw [hb]
    exact .inl ⟨rfl, h⟩
  | cons de rest =>
    rw [hb]
    refine .inr ⟨de, rest, rfl, h.unused, ⟨fd, d, hfree, hfds, ?_⟩, h.nextDesc⟩
    show Function.update (base s).streams a _ = _
    rw [hstreams, Function.update_idem]

def Platform.twoStreams : Platform where
  malloc := fun used => if used 4096 then (if used 8192 then none else some 8192) else some 4096
  malloc_free := by
    intro used a h
    split at h
    · split at h
      · cases h
      · rename_i hn
        cases h
        exact ⟨by simpa using hn, by decide⟩
    · rename_i hn
      cases h
      exact ⟨by simpa using hn, by decide⟩
  statvfs := Platform.small.statvfs
  ioctl := Platform.small.ioctl

end UnreliableFS.Posix
