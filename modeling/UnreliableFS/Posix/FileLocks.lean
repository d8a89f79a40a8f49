import UnreliableFS.Posix.Fallible

/-!
# Locks by `flock`

A lock by `flock` belongs to an open file description and lasts as long as one of its
descriptors. `TableStep` is all that a call can do to the descriptors and these
locks. Every call keeps a base `Regular`, in which such locks exclude each other; and
a call other than `flock` drops the locks of what it closes, and no others
(`LocksFollow`).
-/

namespace UnreliableFS.Posix

open Interaction

-- ---------------------------------------------------------------------------
-- What a call can do
-- ---------------------------------------------------------------------------

structure Alike (b b' : Base) : Prop where
  nofile : b'.nofile = b.nofile
  fds : b'.fds = b.fds
  nextDesc : b'.nextDesc = b.nextDesc
  flocks : b'.flocks = b.flocks

theorem Alike.refl (b : Base) : Alike b b := ⟨rfl, rfl, rfl, rfl⟩

def Base.others (b : Base) (d : Desc) : List FileLock := b.flocks.filter (·.desc ≠ d.id)

inductive TableStep (c : Sys) (b b' : Base) : Prop
  | alike : Alike b b' → TableStep c b b'
  | opened {fd : Nat} {i : Ino} {acc : AccMode} {append : Bool} : b.fds fd = none → fd < b.nofile →
      Alike (b.install fd i acc append) b' → TableStep c b b'
  | dup {fd new : Nat} {d : Desc} : b.fds fd = some d → b.fds new = none → new < b.nofile →
      Alike (b.setFd new (some d)) b' → TableStep c b b'
  | closed {fd : Nat} {d : Desc} : b.fds fd = some d → Alike (b.closeFd fd d) b' → TableStep c b b'
  | unlocked {fd : Int} {op : FlockOp} {d : Desc} : c = .flock fd op → b.desc fd = .ok d →
      Alike { b with flocks := b.others d } b' → TableStep c b b'
  | locked {fd : Int} {op : FlockOp} {d : Desc} : c = .flock fd op → b.desc fd = .ok d →
      (∀ l ∈ b.others d, l.ino = d.ino → l.exclusive = false ∧ op ≠ .ex) →
      Alike { b with flocks := ⟨d.id, d.ino, op = .ex⟩ :: b.others d } b' → TableStep c b b'

variable {P : Platform} {b b' b'' : Base} {c : Sys} {ret : Nat} {data : Data}

theorem kernel_alike (hc : changesTable c = false) (hf : ∀ fd op, c ≠ .flock fd op) :
    Alike b (kernel P c b).2 := by
  have halter (r : Except Errno (Tree × Nat)) : Alike b (b.alter r).2 := by
    obtain ⟨tree, h⟩ := Base.alter_snd (b := b) r
    rw [h]
    exact ⟨rfl, rfl, rfl, rfl⟩
  cases c with
  | «open» | dup | close | opendir | readdir | closedir => cases hc
  | flock fd op => exact absurd rfl (hf fd op)
  | fcntl fd cmd fl =>
    obtain ⟨locks, h⟩ := fcntl_snd (b := b) fd cmd fl
    simp only [kernel, h]
    exact ⟨rfl, rfl, rfl, rfl⟩
  | lstat | readlink | pread | statvfs | fdatasync | fsync | getxattr | listxattr | dirfd | access
  | fstat | ioctl =>
    simp only [kernel, Base.inspect_snd]
    exact .refl b
  | mknod | mkdir | unlink | rmdir | symlink | rename | link | chmod | chown | truncate | pwrite
  | setxattr | removexattr | fallocate | utimensat => exact halter _

theorem alike_atBody (P : Platform) (E : Setup) (b : Base) (path : CStr) :
    Alike b ((posix P).atBody E b path) := by
  obtain ⟨locks, h⟩ := posix_atBody P E b path
  rw [h]
  exact ⟨rfl, rfl, rfl, rfl⟩

/-- `flock` fails only if another description's lock is in the way, and then the lock
that was to be converted is lost. -/
theorem kernel_flock {fd : Int} {d : Desc} (hd : b.desc fd = .ok d) (op : FlockOp) :
    (op = .un ∧ kernel P (.flock fd op) b = (.done 0 .none, { b with flocks := b.others d })) ∨
      (op ≠ .un ∧ (∀ l ∈ b.others d, l.ino = d.ino → l.exclusive = false ∧ op ≠ .ex) ∧
        kernel P (.flock fd op) b =
          (.done 0 .none, { b with flocks := ⟨d.id, d.ino, op = .ex⟩ :: b.others d })) ∨
      op ≠ .un ∧ (∃ l ∈ b.others d, l.ino = d.ino ∧ (l.exclusive = true ∨ op = .ex)) ∧
        kernel P (.flock fd op) b = (.fail .EAGAIN, { b with flocks := b.others d }) := by
  have hcall : kernel P (.flock fd op) b =
      if op = .un then (.done 0 .none, { b with flocks := b.others d })
      else if (b.others d).any fun l => l.ino = d.ino && (l.exclusive || op = .ex) then
        (.fail .EAGAIN, { b with flocks := b.others d })
      else (.done 0 .none, { b with flocks := ⟨d.id, d.ino, op = .ex⟩ :: b.others d }) := by
    simp only [kernel, Base.flock, hd]
    rfl
  rw [hcall]
  by_cases hun : op = .un
  · exact .inl ⟨hun, if_pos hun⟩
  · rw [if_neg hun]
    by_cases hany : ((b.others d).any fun l => l.ino = d.ino && (l.exclusive || op = .ex)) = true
    · exact .inr (.inr ⟨hun, by simpa using hany, if_pos hany⟩)
    · refine .inr (.inl ⟨hun, fun l hl hino => ?_, if_neg hany⟩)
      rw [List.any_eq_true] at hany
      have hl' := fun h => hany ⟨l, hl, h⟩
      simpa [hino] using hl'

theorem flock_tableStep (P : Platform) (fd : Int) (op : FlockOp) (b : Base) :
    TableStep (.flock fd op) b (kernel P (.flock fd op) b).2 := by
  cases hd : b.desc fd with
  | error e =>
    have hk : kernel P (.flock fd op) b = (.fail e, b) := by simp only [kernel, Base.flock, hd]
    rw [hk]
    exact .alike (.refl b)
  | ok d =>
    obtain ⟨-, hk⟩ | ⟨-, hfree, hk⟩ | ⟨-, -, hk⟩ := kernel_flock (P := P) hd op
    · rw [hk]
      exact .unlocked rfl hd (.refl _)
    · rw [hk]
      exact .locked rfl hd hfree (.refl _)
    · rw [hk]
      exact .unlocked rfl hd (.refl _)

theorem kernel_tableStep (P : Platform) (c : Sys) (b : Base) : TableStep c b (kernel P c b).2 := by
  rcases hr : (kernel P c b).1 with e | ⟨ret, data⟩
  · by_cases hf : ∃ fd op, c = .flock fd op
    · obtain ⟨fd, op, rfl⟩ := hf
      exact flock_tableStep P fd op b
    · rw [kernel_fail_of_ne hr fun fd op he => hf ⟨fd, op, he⟩]
      exact .alike (.refl b)
  · cases c with
    | flock fd op => exact flock_tableStep P fd op b
    | «open» path flags mode =>
      obtain ⟨hfree, tree, i, -, hb⟩ := kernel_open hr
      obtain ⟨hnone, hlt⟩ := Base.freeFd_ok hfree
      rw [hb]
      exact .opened hnone hlt ⟨rfl, rfl, rfl, rfl⟩
    | dup fd =>
      obtain ⟨d, hd, hfree, hb⟩ := kernel_dup hr
      obtain ⟨hnone, hlt⟩ := Base.freeFd_ok hfree
      rw [hb]
      exact .dup (Base.desc_ok.mp hd).2 hnone hlt (.refl _)
    | close fd =>
      obtain ⟨d, hd, hb⟩ := kernel_close hr
      rw [hb]
      exact .closed (Base.desc_ok.mp hd).2 (.refl _)
    | opendir path =>
      obtain ⟨p, i, fd, -, hfree, -, -, -, hb⟩ := kernel_opendir hr
      obtain ⟨hnone, hlt⟩ := Base.freeFd_ok hfree
      rw [hb]
      exact .opened hnone hlt ⟨rfl, rfl, rfl, rfl⟩
    | readdir dir =>
      obtain ⟨st, -, hb | ⟨rest, hb⟩⟩ := kernel_readdir hr
      · rw [hb]
        exact .alike (.refl b)
      · rw [hb]
        exact .alike ⟨rfl, rfl, rfl, rfl⟩
    | closedir dir =>
      obtain ⟨st, d, -, hd, hb⟩ := kernel_closedir hr
      rw [hb]
      exact .closed (Base.desc_ok.mp hd).2 ⟨rfl, rfl, rfl, rfl⟩
    | _ => exact .alike (kernel_alike rfl fun _ _ h => by cases h)

-- ---------------------------------------------------------------------------
-- What every call keeps
-- ---------------------------------------------------------------------------

def Base.Open (b : Base) (n : Nat) : Prop := ∃ fd d, b.fds fd = some d ∧ d.id = n

/-- Descriptors of one description are of one object; locks are of what is open, one
for each description, and exclude each other. -/
structure Base.Regular (b : Base) : Prop where
  bounded : ∀ fd d, b.fds fd = some d → fd < b.nofile ∧ d.id < b.nextDesc
  object : ∀ fd fd' d d', b.fds fd = some d → b.fds fd' = some d' → d.id = d'.id → d.ino = d'.ino
  locked : ∀ l ∈ b.flocks, ∃ fd d, b.fds fd = some d ∧ d.id = l.desc ∧ d.ino = l.ino
  single : ∀ l ∈ b.flocks, ∀ l' ∈ b.flocks, l.desc = l'.desc → l = l'
  exclusion : ∀ l ∈ b.flocks, ∀ l' ∈ b.flocks, l.desc ≠ l'.desc → l.ino = l'.ino →
    l.exclusive = false

theorem Base.mem_others {d : Desc} {l : FileLock} :
    l ∈ b.others d ↔ l ∈ b.flocks ∧ l.desc ≠ d.id := by
  simp [Base.others]

namespace Base.Regular

theorem congr (h : b.Regular) (ha : Alike b b') : b'.Regular where
  bounded := by
    rw [ha.fds, ha.nofile, ha.nextDesc]
    exact h.bounded
  object := by
    rw [ha.fds]
    exact h.object
  locked := by
    rw [ha.flocks, ha.fds]
    exact h.locked
  single := by
    rw [ha.flocks]
    exact h.single
  exclusion := by
    rw [ha.flocks]
    exact h.exclusion

theorem add (h : b.Regular) {fd : Nat} {d : Desc} (hfree : b.fds fd = none) (hlt : fd < b.nofile)
    (hsame : ∀ fd' d', b.fds fd' = some d' → d'.id = d.id → d'.ino = d.ino)
    (hfds : b'.fds = Function.update b.fds fd (some d)) (hnofile : b'.nofile = b.nofile)
    (hid : d.id < b'.nextDesc) (hnext : b.nextDesc ≤ b'.nextDesc) (hflocks : b'.flocks = b.flocks) :
    b'.Regular where
  bounded := by
    intro fd' d' hd'
    rw [hfds, Function.update_apply] at hd'
    split at hd'
    · rename_i he
      cases hd'
      exact ⟨hnofile ▸ he ▸ hlt, hid⟩
    · obtain ⟨hlt', hid'⟩ := h.bounded fd' d' hd'
      exact ⟨hnofile ▸ hlt', Nat.lt_of_lt_of_le hid' hnext⟩
  object := by
    intro fd₁ fd₂ d₁ d₂ h₁ h₂ hids
    rw [hfds, Function.update_apply] at h₁ h₂
    split at h₁
    · cases h₁
      split at h₂
      · cases h₂
        rfl
      · exact (hsame fd₂ d₂ h₂ hids.symm).symm
    · split at h₂
      · cases h₂
        exact hsame fd₁ d₁ h₁ hids
      · exact h.object fd₁ fd₂ d₁ d₂ h₁ h₂ hids
  locked := by
    rw [hflocks]
    intro l hl
    obtain ⟨fd', d', hd', hids⟩ := h.locked l hl
    refine ⟨fd', d', ?_, hids⟩
    rw [hfds, Function.update_of_ne, hd']
    rintro rfl
    rw [hfree] at hd'
    cases hd'
  single := by
    rw [hflocks]
    exact h.single
  exclusion := by
    rw [hflocks]
    exact h.exclusion

theorem install (h : b.Regular) {fd : Nat} (hfree : b.fds fd = none) (hlt : fd < b.nofile) (i : Ino)
    (acc : AccMode) (append : Bool) : (b.install fd i acc append).Regular := by
  refine h.add hfree hlt (fun fd' d' hd' he => ?_) rfl rfl (Nat.lt_succ_self _) (Nat.le_succ _) rfl
  -- the description is a new one
  exact absurd he (Nat.ne_of_lt (h.bounded fd' d' hd').2)

theorem dup (h : b.Regular) {fd new : Nat} {d : Desc} (hd : b.fds fd = some d)
    (hfree : b.fds new = none) (hlt : new < b.nofile) : (b.setFd new (some d)).Regular :=
  h.add hfree hlt (fun fd' d' hd' he => h.object fd' fd d' d hd' hd he) rfl rfl (h.bounded fd d hd).2
    (Nat.le_refl _) rfl

/-- A close drops the locks of the description if this was its last descriptor. -/
theorem mem_closeFd (h : b.Regular) {fd : Nat} {d : Desc} (hd : b.fds fd = some d) (l : FileLock) :
    l ∈ (b.closeFd fd d).flocks ↔ l ∈ b.flocks ∧ (b.closeFd fd d).Open l.desc := by
  have hopen : (b.closeFd fd d).Open l.desc ↔
      ∃ fd' d', fd' ≠ fd ∧ b.fds fd' = some d' ∧ d'.id = l.desc := by
    simp only [Base.Open, Base.closeFd, Base.setFd, Function.update_apply]
    constructor
    · rintro ⟨fd', d', hd', hid⟩
      split at hd'
      · cases hd'
      · exact ⟨fd', d', ‹_›, hd', hid⟩
    · rintro ⟨fd', d', hne, hd', hid⟩
      exact ⟨fd', d', (if_neg hne).trans hd', hid⟩
  have hshared : ((List.range b.nofile).any fun fd' => fd' ≠ fd && (b.fds fd').any (·.id = d.id)) = true ↔
      ∃ fd' d', fd' ≠ fd ∧ b.fds fd' = some d' ∧ d'.id = d.id := by
    simp only [List.any_eq_true, List.mem_range, Bool.and_eq_true, decide_eq_true_eq,
      Option.any_eq_true_iff_get]
    constructor
    · rintro ⟨fd', -, hne, hsome, hid⟩
      exact ⟨fd', _, hne, Option.eq_some_of_isSome hsome, hid⟩
    · rintro ⟨fd', d', hne, hd', hid⟩
      exact ⟨fd', (h.bounded fd' d' hd').1, hne, by simp [hd'], by simp [hd', hid]⟩
  rw [hopen]
  by_cases he : l.desc = d.id
  · rw [he, ← hshared]
    simp only [Base.closeFd]
    split
    · rename_i hany
      exact ⟨fun hl => ⟨hl, hany⟩, And.left⟩
    · rename_i hany
      refine ⟨fun hl => ?_, fun hl => absurd hl.2 hany⟩
      exact absurd he (of_decide_eq_true (List.mem_filter.mp hl).2)
  · have hother : l ∈ (b.closeFd fd d).flocks ↔ l ∈ b.flocks := by
      simp only [Base.closeFd]
      split
      · rfl
      · simp [he]
    rw [hother]
    refine ⟨fun hl => ⟨hl, ?_⟩, And.left⟩
    obtain ⟨fd', d', hd', hid, -⟩ := h.locked l hl
    refine ⟨fd', d', ?_, hd', hid⟩
    rintro rfl
    cases hd.symm.trans hd'
    exact he hid.symm

theorem closeFd (h : b.Regular) {fd : Nat} {d : Desc} (hd : b.fds fd = some d) :
    (b.closeFd fd d).Regular := by
  have hfds {fd' : Nat} {d' : Desc} (hd' : (b.closeFd fd d).fds fd' = some d') : b.fds fd' = some d' := by
    simp only [Base.closeFd, Base.setFd, Function.update_apply] at hd'
    split at hd'
    · cases hd'
    · exact hd'
  have hmem {l : FileLock} (hl : l ∈ (b.closeFd fd d).flocks) := (h.mem_closeFd hd l).mp hl
  constructor
  · exact fun fd' d' hd' => h.bounded fd' d' (hfds hd')
  · exact fun fd₁ fd₂ d₁ d₂ h₁ h₂ => h.object fd₁ fd₂ d₁ d₂ (hfds h₁) (hfds h₂)
  · intro l hl
    obtain ⟨hl', fd₁, d₁, hd₁, hid⟩ := hmem hl
    obtain ⟨fd₂, d₂, hd₂, hid', hino⟩ := h.locked l hl'
    exact ⟨fd₁, d₁, hd₁, hid, (h.object fd₁ fd₂ d₁ d₂ (hfds hd₁) hd₂ (hid.trans hid'.symm)).trans hino⟩
  · exact fun l hl l' hl' => h.single l (hmem hl).1 l' (hmem hl').1
  · exact fun l hl l' hl' => h.exclusion l (hmem hl).1 l' (hmem hl').1

theorem unlock (h : b.Regular) (d : Desc) : ({ b with flocks := b.others d } : Base).Regular where
  bounded := h.bounded
  object := h.object
  locked l hl := h.locked l (Base.mem_others.mp hl).1
  single l hl l' hl' := h.single l (Base.mem_others.mp hl).1 l' (Base.mem_others.mp hl').1
  exclusion l hl l' hl' := h.exclusion l (Base.mem_others.mp hl).1 l' (Base.mem_others.mp hl').1

theorem lock (h : b.Regular) {fd : Nat} {d : Desc} (hd : b.fds fd = some d) (exclusive : Bool)
    (hfree : ∀ l ∈ b.others d, l.ino = d.ino → l.exclusive = false ∧ exclusive = false) :
    ({ b with flocks := ⟨d.id, d.ino, exclusive⟩ :: b.others d } : Base).Regular where
  bounded := h.bounded
  object := h.object
  locked l hl := by
    obtain rfl | hl := List.mem_cons.mp hl
    · exact ⟨fd, d, hd, rfl, rfl⟩
    · exact h.locked l (Base.mem_others.mp hl).1
  single l hl l' hl' he := by
    obtain rfl | hl := List.mem_cons.mp hl
    · obtain rfl | hl' := List.mem_cons.mp hl'
      · rfl
      · exact absurd he.symm (Base.mem_others.mp hl').2
    · obtain rfl | hl' := List.mem_cons.mp hl'
      · exact absurd he (Base.mem_others.mp hl).2
      · exact h.single l (Base.mem_others.mp hl).1 l' (Base.mem_others.mp hl').1 he
  exclusion l hl l' hl' hne hino := by
    obtain rfl | hl := List.mem_cons.mp hl
    · obtain rfl | hl' := List.mem_cons.mp hl'
      · exact absurd rfl hne
      · exact (hfree l' hl' hino.symm).2
    · obtain rfl | hl' := List.mem_cons.mp hl'
      · exact (hfree l hl hino).1
      · exact h.exclusion l (Base.mem_others.mp hl).1 l' (Base.mem_others.mp hl').1 hne hino

theorem step (h : b.Regular) (hs : TableStep c b b') : b'.Regular := by
  cases hs with
  | alike ha => exact h.congr ha
  | opened hfree hlt ha => exact (h.install hfree hlt ..).congr ha
  | dup hd hfree hlt ha => exact (h.dup hd hfree hlt).congr ha
  | closed hd ha => exact (h.closeFd hd).congr ha
  | unlocked _ _ ha => exact (h.unlock _).congr ha
  | locked _ hd hfree ha =>
    refine (h.lock (Base.desc_ok.mp hd).2 _ fun l hl hino => ?_).congr ha
    exact (hfree l hl hino).imp_right decide_eq_false

end Base.Regular

-- ---------------------------------------------------------------------------
-- What the other calls do to the locks
-- ---------------------------------------------------------------------------

/-- Locks go with their descriptions, and descriptions that are closed stay closed. -/
structure LocksFollow (b b' : Base) : Prop where
  locks : ∀ l, l ∈ b'.flocks ↔ l ∈ b.flocks ∧ b'.Open l.desc
  old : ∀ n < b.nextDesc, b'.Open n → b.Open n
  nextDesc : b.nextDesc ≤ b'.nextDesc

theorem Base.Regular.open_of_mem (h : b.Regular) {l : FileLock} (hl : l ∈ b.flocks) : b.Open l.desc := by
  obtain ⟨fd, d, hd, hid, -⟩ := h.locked l hl
  exact ⟨fd, d, hd, hid⟩

theorem Base.Regular.lt_of_open (h : b.Regular) {n : Nat} (ho : b.Open n) : n < b.nextDesc := by
  obtain ⟨fd, d, hd, rfl⟩ := ho
  exact (h.bounded fd d hd).2

namespace LocksFollow

theorem refl (h : b.Regular) : LocksFollow b b :=
  ⟨fun _ => ⟨fun hl => ⟨hl, h.open_of_mem hl⟩, And.left⟩, fun _ _ ho => ho, Nat.le_refl _⟩

theorem trans (h : b.Regular) (h₁ : LocksFollow b b') (h₂ : LocksFollow b' b'') : LocksFollow b b'' where
  locks l := by
    rw [h₂.locks, h₁.locks]
    refine ⟨fun hl => ⟨hl.1.1, hl.2⟩, fun hl => ⟨⟨hl.1, ?_⟩, hl.2⟩⟩
    have hlt := h.lt_of_open (h.open_of_mem hl.1)
    exact h₂.old l.desc (Nat.lt_of_lt_of_le hlt h₁.nextDesc) hl.2
  old n hn ho := h₁.old n hn (h₂.old n (Nat.lt_of_lt_of_le hn h₁.nextDesc) ho)
  nextDesc := Nat.le_trans h₁.nextDesc h₂.nextDesc

theorem congr (h : LocksFollow b b') (ha : Alike b' b'') : LocksFollow b b'' where
  locks l := by
    simp only [Base.Open, ha.fds, ha.flocks]
    exact h.locks l
  old n hn ho := h.old n hn (by simpa only [Base.Open, ha.fds] using ho)
  nextDesc := ha.nextDesc ▸ h.nextDesc

theorem setFd (h : b.Regular) {fd : Nat} {d : Desc} (hfree : b.fds fd = none)
    (hold : d.id < b.nextDesc → b.Open d.id) (hfds : b'.fds = Function.update b.fds fd (some d))
    (hnext : b.nextDesc ≤ b'.nextDesc) (hflocks : b'.flocks = b.flocks) : LocksFollow b b' where
  locks l := by
    rw [hflocks]
    refine ⟨fun hl => ⟨hl, ?_⟩, And.left⟩
    obtain ⟨fd', d', hd', hid⟩ := h.open_of_mem hl
    refine ⟨fd', d', ?_, hid⟩
    rw [hfds, Function.update_of_ne, hd']
    rintro rfl
    rw [hfree] at hd'
    cases hd'
  old n hn ho := by
    obtain ⟨fd', d', hd', hid⟩ := ho
    rw [hfds, Function.update_apply] at hd'
    split at hd'
    · cases hd'
      exact hid ▸ hold (hid ▸ hn)
    · exact ⟨fd', d', hd', hid⟩
  nextDesc := hnext

theorem closeFd (h : b.Regular) {fd : Nat} {d : Desc} (hd : b.fds fd = some d) :
    LocksFollow b (b.closeFd fd d) where
  locks := h.mem_closeFd hd
  old n _ ho := by
    obtain ⟨fd', d', hd', hid⟩ := ho
    simp only [Base.closeFd, Base.setFd, Function.update_apply] at hd'
    split at hd'
    · cases hd'
    · exact ⟨fd', d', hd', hid⟩
  nextDesc := Nat.le_refl _

theorem step (h : b.Regular) (hc : ∀ fd op, c ≠ .flock fd op) (hs : TableStep c b b') :
    LocksFollow b b' := by
  cases hs with
  | alike ha => exact (refl h).congr ha
  | @opened fd i acc append hfree hlt ha =>
    have hopened : LocksFollow b (b.install fd i acc append) :=
      setFd h hfree (fun hlt => absurd hlt (Nat.lt_irrefl _)) rfl (Nat.le_succ _) rfl
    exact hopened.congr ha
  | @dup fd new d hd hfree hlt ha =>
    have hdup : LocksFollow b (b.setFd new (some d)) :=
      setFd h hfree (fun _ => ⟨fd, d, hd, rfl⟩) rfl (Nat.le_refl _) rfl
    exact hdup.congr ha
  | closed hd ha => exact (closeFd h hd).congr ha
  | unlocked he _ _ => exact absurd he (hc _ _)
  | locked he _ _ _ => exact absurd he (hc _ _)

end LocksFollow

/-- What a call keeps, and what it does to the locks if it is not `flock`, a program
does that makes no such call. -/
theorem run_locksFollow {α : Type} {p : Prog sysSig α} (h : b.Regular)
    (hp : ∀ e ∈ p.trace (kernel P) b, ∀ fd op, e.call ≠ .flock fd op) {a : α}
    (hr : p.run (kernel P) b = some (a, b')) : b'.Regular ∧ LocksFollow b b' := by
  refine Prog.run_keeps_of_trace (I := fun b' => b'.Regular ∧ LocksFollow b b') (kernel P) p
    (fun e he hi => ?_) ⟨h, .refl h⟩ hr
  have hs := kernel_tableStep P e.call e.state
  exact ⟨hi.1.step hs, hi.2.trans h (.step hi.1 (hp e he) hs)⟩

end UnreliableFS.Posix
