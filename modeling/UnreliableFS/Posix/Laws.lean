import UnreliableFS.Posix.Kernel

/-!
# Laws of the kernel

What each call does when it succeeds, and what it leaves alone.
-/

namespace UnreliableFS.Posix

open Interaction

-- ---------------------------------------------------------------------------
-- Results that succeed
-- ---------------------------------------------------------------------------

section
variable {α γ : Type} {x : Except Errno α} {f : α → Except Errno γ} {a a' : α} {y : γ} {e : Errno}

theorem bind_ok : (x >>= f) = .ok y ↔ ∃ a, x = .ok a ∧ f a = .ok y := by
  cases x with
  | error e => simp [bind, Except.bind]
  | ok a => simp [bind, Except.bind]

theorem pure_ok : (pure a : Except Errno α) = .ok a' ↔ a = a' := by
  simp [pure, Except.pure]

theorem throw_ok : (throw e : Except Errno α) = .ok a ↔ False := by
  simp [throw, throwThe, MonadExceptOf.throw]

theorem refuse_ok {c : Prop} [Decidable c] {u : Unit} : refuse c e = .ok u ↔ ¬c := by
  unfold refuse
  split <;> simp_all

end

namespace Base

variable {b : Base} {P : Platform}

@[simp] theorem inspect_snd (r : Except Errno (Nat × Data)) : (b.inspect r).2 = b := by
  rcases r with e | ⟨ret, d⟩
  · rfl
  · rfl

theorem alter_snd (r : Except Errno (Tree × Nat)) : ∃ tree, (b.alter r).2 = { b with tree } := by
  rcases r with e | ⟨tree, ret⟩
  · exact ⟨b.tree, rfl⟩
  · exact ⟨tree, rfl⟩

theorem inspect_done {r : Except Errno (Nat × Data)} {ret : Nat} {d : Data}
    (h : (b.inspect r).1 = .done ret d) : r = .ok (ret, d) := by
  rcases r with e | ⟨ret, d⟩
  · cases h
  · cases h
    rfl

theorem alter_done {r : Except Errno (Tree × Nat)} {ret : Nat} {d : Data}
    (h : (b.alter r).1 = .done ret d) :
    ∃ tree, r = .ok (tree, ret) ∧ (b.alter r).2 = { b with tree } := by
  rcases r with e | ⟨tree, ret⟩
  · cases h
  · cases h
    exact ⟨tree, rfl, rfl⟩

theorem enter_done {r : Except Errno (Nat × Data × Base)} {ret : Nat} {d : Data}
    (h : (b.enter r).1 = .done ret d) : ∃ b', (b.enter r).2 = b' ∧ r = .ok (ret, d, b') := by
  rcases r with e | ⟨ret, d, b'⟩
  · cases h
  · cases h
    exact ⟨b', rfl, rfl⟩

theorem enter_fail {r : Except Errno (Nat × Data × Base)} {e : Errno}
    (h : (b.enter r).1 = .fail e) : (b.enter r).2 = b := by
  rcases r with e | ⟨ret, d, b'⟩
  · rfl
  · cases h

theorem silent_ok {r : Except Errno Tree} {tree : Tree} {ret : Nat} (h : silent r = .ok (tree, ret)) :
    r = .ok tree ∧ ret = 0 := by
  rcases r with e | t
  · cases h
  · cases h
    exact ⟨rfl, rfl⟩

theorem desc_ok {fd : Int} {d : Desc} : b.desc fd = .ok d ↔ 0 ≤ fd ∧ b.fds fd.toNat = some d := by
  unfold desc
  split
  · rename_i h
    simp only [throw_ok, false_iff, not_and]
    omega
  · rename_i h
    cases b.fds fd.toNat with
    | none => simp [throw_ok]
    | some d' =>
      have hfd : 0 ≤ fd := by omega
      simp only [pure_ok, Option.some.injEq, hfd, true_and]

theorem freeFd_ok {fd : Nat} (h : b.freeFd = .ok fd) : b.fds fd = none ∧ fd < b.nofile := by
  unfold freeFd at h
  split at h
  · rename_i fd' hf
    cases h
    have hn := List.find?_some hf
    have hm := List.mem_of_find?_eq_some hf
    exact ⟨by simpa using hn, by simpa using hm⟩
  · cases h

theorem stream_ok {dir : Int} {s : DirStream} :
    b.stream dir = .ok s ↔ 0 ≤ dir ∧ b.streams dir.toNat = some s := by
  unfold stream
  split
  · rename_i h
    simp only [throw_ok, false_iff, not_and]
    omega
  · rename_i h
    cases b.streams dir.toNat with
    | none => simp [throw_ok]
    | some s' =>
      have hdir : 0 ≤ dir := by omega
      simp only [pure_ok, Option.some.injEq, hdir, true_and]

end Base

-- ---------------------------------------------------------------------------
-- The descriptor table
-- ---------------------------------------------------------------------------

variable {P : Platform} {b : Base} {c : Sys} {ret : Nat} {data : Data}

def changesTable : Sys → Bool
  | .open .. | .dup .. | .close .. | .opendir .. | .readdir .. | .closedir .. => true
  | _ => false

structure SameTable (b b' : Base) : Prop where
  fds : b'.fds = b.fds
  streams : b'.streams = b.streams
  nextDesc : b'.nextDesc = b.nextDesc

theorem SameTable.refl (b : Base) : SameTable b b := ⟨rfl, rfl, rfl⟩

/-- What is open is as before, whatever was opened and closed in between. -/
structure SameOpen (b b' : Base) : Prop where
  fds : b'.fds = b.fds
  streams : b'.streams = b.streams
  nextDesc : b.nextDesc ≤ b'.nextDesc

theorem SameTable.sameOpen {b b' : Base} (h : SameTable b b') : SameOpen b b' :=
  ⟨h.fds, h.streams, Nat.le_of_eq h.nextDesc.symm⟩

theorem fcntl_snd (fd : Int) (cmd : LockCmd) (fl : Flock) :
    ∃ locks, (b.enter (b.fcntl fd cmd fl)).2 = { b with locks } := by
  rcases h : (b.enter (b.fcntl fd cmd fl)).1 with e | ⟨ret, d⟩
  · exact ⟨b.locks, Base.enter_fail h⟩
  · obtain ⟨b', hb, hr⟩ := Base.enter_done h
    rw [hb]
    simp only [Base.fcntl, bind_ok] at hr
    obtain ⟨d, -, hr⟩ := hr
    split at hr
    · cases hr
    · split at hr
      · cases hr
        exact ⟨_, rfl⟩
      · cases hr
        exact ⟨_, rfl⟩
    · cases hr
      exact ⟨_, rfl⟩
    · simp only [bind_ok, refuse_ok] at hr
      obtain ⟨-, -, hr⟩ := hr
      split at hr
      · cases hr
      · cases hr
        exact ⟨_, rfl⟩

theorem flock_snd (fd : Int) (op : FlockOp) : ∃ flocks, (b.flock fd op).2 = { b with flocks } := by
  unfold Base.flock
  split
  · exact ⟨b.flocks, rfl⟩
  · dsimp only
    split
    · exact ⟨_, rfl⟩
    · split
      · exact ⟨_, rfl⟩
      · exact ⟨_, rfl⟩

theorem slurped_locks (b : Base) (path : CStr) : ∃ locks, b.slurped path = { b with locks } := by
  unfold Base.slurped
  split
  · exact ⟨_, rfl⟩
  · exact ⟨b.locks, rfl⟩

section
variable (P : Platform) (E : Setup) (b : Base) (path : CStr)

theorem posix_atBody : ∃ locks, (posix P).atBody E b path = { b with locks } :=
  OS.atBody_keeps (posix P) E (fun b b' => ∃ locks, b' = { b with locks }) (fun b => ⟨b.locks, rfl⟩)
    slurped_locks b path

@[simp] theorem atBody_tree : ((posix P).atBody E b path).tree = b.tree := by
  obtain ⟨locks, h⟩ := posix_atBody P E b path
  rw [h]

@[simp] theorem atBody_cwd : ((posix P).atBody E b path).cwd = b.cwd := by
  obtain ⟨locks, h⟩ := posix_atBody P E b path
  rw [h]

@[simp] theorem atBody_pid : ((posix P).atBody E b path).pid = b.pid := by
  obtain ⟨locks, h⟩ := posix_atBody P E b path
  rw [h]

@[simp] theorem atBody_nofile : ((posix P).atBody E b path).nofile = b.nofile := by
  obtain ⟨locks, h⟩ := posix_atBody P E b path
  rw [h]

@[simp] theorem atBody_fds : ((posix P).atBody E b path).fds = b.fds := by
  obtain ⟨locks, h⟩ := posix_atBody P E b path
  rw [h]

@[simp] theorem atBody_nextDesc : ((posix P).atBody E b path).nextDesc = b.nextDesc := by
  obtain ⟨locks, h⟩ := posix_atBody P E b path
  rw [h]

@[simp] theorem atBody_streams : ((posix P).atBody E b path).streams = b.streams := by
  obtain ⟨locks, h⟩ := posix_atBody P E b path
  rw [h]

@[simp] theorem atBody_flocks : ((posix P).atBody E b path).flocks = b.flocks := by
  obtain ⟨locks, h⟩ := posix_atBody P E b path
  rw [h]

theorem atBody_sameTable : SameTable b ((posix P).atBody E b path) :=
  ⟨atBody_fds P E b path, atBody_streams P E b path, atBody_nextDesc P E b path⟩

@[simp] theorem atBody_desc (fd : Int) : ((posix P).atBody E b path).desc fd = b.desc fd := by
  obtain ⟨locks, h⟩ := posix_atBody P E b path
  rw [h]
  rfl

end

theorem kernel_sameTable (hc : changesTable c = false) : SameTable b (kernel P c b).2 := by
  have halter (r : Except Errno (Tree × Nat)) : SameTable b (b.alter r).2 := by
    obtain ⟨tree, h⟩ := Base.alter_snd (b := b) r
    rw [h]
    exact ⟨rfl, rfl, rfl⟩
  cases c with
  | «open» | dup | close | opendir | readdir | closedir => cases hc
  | fcntl fd cmd fl =>
    obtain ⟨locks, h⟩ := fcntl_snd (b := b) fd cmd fl
    simp only [kernel, h]
    exact ⟨rfl, rfl, rfl⟩
  | flock fd op =>
    obtain ⟨flocks, h⟩ := flock_snd (b := b) fd op
    simp only [kernel, h]
    exact ⟨rfl, rfl, rfl⟩
  | lstat | readlink | pread | statvfs | fdatasync | fsync | getxattr | listxattr | dirfd | access
  | fstat | ioctl =>
    simp only [kernel, Base.inspect_snd]
    exact .refl b
  | mknod | mkdir | unlink | rmdir | symlink | rename | link | chmod | chown | truncate | pwrite
  | setxattr | removexattr | fallocate | utimensat => exact halter _

theorem kernel_open {path : CStr} {flags : OpenFlags} {mode : Nat}
    (h : (kernel P (.open path flags mode) b).1 = .done ret data) :
    b.freeFd = .ok ret ∧ ∃ tree i, b.tree.openFile b.cwd path flags mode = .ok (tree, i) ∧
      (kernel P (.open path flags mode) b).2 =
        { b with tree }.install ret i flags.acc flags.append := by
  obtain ⟨b', hb, hr⟩ := Base.enter_done h
  simp only [Base.openCall, bind_ok, pure_ok] at hr
  obtain ⟨fd, hfd, ⟨tree, i⟩, ht, he⟩ := hr
  cases he
  exact ⟨hfd, tree, i, ht, hb⟩

theorem kernel_truncate {path : CStr} {length : Int}
    (h : (kernel P (.truncate path length) b).1 = .done ret data) : ∃ p i old, 0 ≤ length ∧
      b.tree.find b.cwd true path = .ok (p, i) ∧ b.tree.dataOf i = .ok old ∧
      (kernel P (.truncate path length) b).2 =
        { b with tree := b.tree.setData i (Extents.resize 0 old length.toNat) } := by
  obtain ⟨tree, hr, hb⟩ := Base.alter_done h
  obtain ⟨hr, -⟩ := Base.silent_ok hr
  simp only [Tree.truncate, bind_ok, pure_ok, refuse_ok] at hr
  obtain ⟨-, hn, ⟨p, i⟩, hp, old, hold, -, -, rfl⟩ := hr
  exact ⟨p, i, old, Int.not_lt.mp hn, hp, hold, hb⟩

theorem kernel_pwrite {fd : Int} {bytes : List UInt8} {offset : Int}
    (h : (kernel P (.pwrite fd bytes offset) b).1 = .done ret data) : ∃ d old, b.desc fd = .ok d ∧
      b.tree.dataOf d.ino = .ok old ∧ ret = (bytes.take Tree.MAX_RW_COUNT).length ∧
      (kernel P (.pwrite fd bytes offset) b).2 =
        { b with tree := b.tree.setData d.ino (Extents.writeAt 0 old
          (if d.append then old.length else offset.toNat) (bytes.take Tree.MAX_RW_COUNT)) } := by
  obtain ⟨tree, hr, hb⟩ := Base.alter_done h
  simp only [Base.pwrite, bind_ok, pure_ok] at hr
  obtain ⟨d, hd, -, -, -, -, old, hold, he⟩ := hr
  cases he
  exact ⟨d, old, hd, hold, rfl, hb⟩

theorem kernel_fallocate {fd : Int} {mode : Nat} {offset len : Int}
    (h : (kernel P (.fallocate fd mode offset len) b).1 = .done ret data) : ∃ d old,
      b.desc fd = .ok d ∧ (kernel P (.fallocate fd mode offset len) b).2 =
        { b with tree := b.tree.setData d.ino (Extents.resize 0 old
          (max old.length (offset + len).toNat)) } := by
  obtain ⟨tree, hr, hb⟩ := Base.alter_done h
  obtain ⟨hr, -⟩ := Base.silent_ok hr
  simp only [Base.fallocate, bind_ok, pure_ok] at hr
  obtain ⟨d, hd, -, -, -, -, -, -, old, -, rfl⟩ := hr
  exact ⟨d, old, hd, hb⟩

theorem kernel_dup {fd : Int} (h : (kernel P (.dup fd) b).1 = .done ret data) :
    ∃ d, b.desc fd = .ok d ∧ b.freeFd = .ok ret ∧
      (kernel P (.dup fd) b).2 = b.setFd ret (some d) := by
  obtain ⟨b', hb, hr⟩ := Base.enter_done h
  simp only [Base.dup, bind_ok, pure_ok] at hr
  obtain ⟨d, hd, new, hn, he⟩ := hr
  cases he
  exact ⟨d, hd, hn, hb⟩

theorem kernel_close {fd : Int} (h : (kernel P (.close fd) b).1 = .done ret data) :
    ∃ d, b.desc fd = .ok d ∧ (kernel P (.close fd) b).2 = b.closeFd fd.toNat d := by
  obtain ⟨b', hb, hr⟩ := Base.enter_done h
  simp only [Base.close, bind_ok, pure_ok] at hr
  obtain ⟨d, hd, he⟩ := hr
  cases he
  exact ⟨d, hd, hb⟩

theorem kernel_close_of_desc {fd : Int} {d : Desc} (hd : b.desc fd = .ok d) :
    kernel P (.close fd) b = (.done 0 .none, b.closeFd fd.toNat d) := by
  simp only [kernel, Base.close, hd]
  rfl

theorem kernel_opendir {path : CStr} (h : (kernel P (.opendir path) b).1 = .done ret data) :
    ∃ p i fd, b.tree.find b.cwd true path = .ok (p, i) ∧ b.freeFd = .ok fd ∧
      b.streams ret = none ∧ 0 < ret ∧ ret < 2 ^ 64 ∧
      (kernel P (.opendir path) b).2 =
        (b.install fd i .rdonly false).setStream ret (some ⟨fd, b.entries p i⟩) := by
  obtain ⟨b', hb, hr⟩ := Base.enter_done h
  simp only [Base.opendir, bind_ok, refuse_ok] at hr
  obtain ⟨⟨p, i⟩, hf, -, -, -, -, fd, hfd, hr⟩ := hr
  split at hr
  · cases hr
  · rename_i a ha
    cases hr
    obtain ⟨hused, hpos, hlt⟩ := P.malloc_free _ _ ha
    exact ⟨p, i, fd, hf, hfd, by simpa using hused, hpos, hlt, hb⟩

theorem kernel_readdir {dir : Int} (h : (kernel P (.readdir dir) b).1 = .done ret data) :
    ∃ st, b.stream dir = .ok st ∧ ((kernel P (.readdir dir) b).2 = b ∨
      ∃ rest, (kernel P (.readdir dir) b).2 = b.setStream dir.toNat (some ⟨st.fd, rest⟩)) := by
  obtain ⟨b', hb, hr⟩ := Base.enter_done h
  simp only [Base.readdir, bind_ok] at hr
  obtain ⟨st, hst, hr⟩ := hr
  refine ⟨st, hst, ?_⟩
  split at hr
  · cases hr
    exact .inl hb
  · cases hr
    exact .inr ⟨_, hb⟩

theorem kernel_closedir {dir : Int} (h : (kernel P (.closedir dir) b).1 = .done ret data) :
    ∃ s d, b.stream dir = .ok s ∧ b.desc s.fd = .ok d ∧
      (kernel P (.closedir dir) b).2 = (b.closeFd s.fd d).setStream dir.toNat none := by
  obtain ⟨b', hb, hr⟩ := Base.enter_done h
  simp only [Base.closedir, bind_ok, pure_ok] at hr
  obtain ⟨s, hs, d, hd, he⟩ := hr
  cases he
  exact ⟨s, d, hs, hd, hb⟩

theorem kernel_closedir_of_stream {dir : Int} {st : DirStream} {d : Desc}
    (hst : b.stream dir = .ok st) (hd : b.desc st.fd = .ok d) :
    kernel P (.closedir dir) b =
      (.done 0 .none, (b.closeFd st.fd d).setStream dir.toNat none) := by
  simp only [kernel, Base.closedir, hst, bind, Except.bind, hd]
  rfl

/-- The descriptor is free again, and the description was never a new one. -/
theorem sameTable_dup_close {d : Desc} {new : Nat} (hfree : b.freeFd = .ok new) :
    SameTable b ((b.setFd new (some d)).closeFd new d) where
  fds := by
    have hn := (Base.freeFd_ok hfree).1
    simp only [Base.closeFd, Base.setFd, Function.update_idem]
    rw [← hn, Function.update_eq_self]
  streams := rfl
  nextDesc := rfl

end UnreliableFS.Posix
