import UnreliableFS.Posix.Laws
import UnreliableFS.Session

/-!
# Record locks of several clients

The clients of the file system lock ranges of a file through their handles, but
the daemon makes all the calls, so to the kernel all locks are the daemon's. A
`Shared` session keeps a table of what has been granted to whom. The kernel's
lock covers what the table says as long as no request is about bytes that
another client has locked in a way that excludes it; and as long as no request has
the daemon read and close the file itself, which it does with its configuration.
-/

namespace UnreliableFS

open Interaction Posix

-- ---------------------------------------------------------------------------
-- What a request does to a table of locks
-- ---------------------------------------------------------------------------

def setLock (locks : List RecordLock) (owner ino : Nat) (fl : Flock) : List RecordLock :=
  if fl.type = .unlck then clearRange locks owner ino (Range.ofFlock fl.start fl.len)
  else setRange locks ⟨owner, ino, Range.ofFlock fl.start fl.len, fl.type = .wrlck⟩

theorem heldAt_setLock (locks : List RecordLock) (owner ino : Nat) (fl : Flock) (o i p : Nat) :
    heldAt (setLock locks owner ino fl) o i p =
      if o = owner ∧ i = ino ∧ (Range.ofFlock fl.start fl.len).has p = true then
        (if fl.type = .unlck then none else some (decide (fl.type = .wrlck)))
      else heldAt locks o i p := by
  unfold setLock
  by_cases hu : fl.type = .unlck
  · simp only [hu, ↓reduceIte, heldAt_clearRange]
  · simp only [hu, ↓reduceIte, heldAt_setRange]

/-- The table of what has been granted, after a request and its reply. A flush
is what a client's `close` of any descriptor is to the file system. -/
def grantedAfter (granted : List RecordLock) (owner ino : Nat) (r : Request) (rc : Int) :
    List RecordLock :=
  match r with
  | .lock _ .setlk fl => if rc = 0 then setLock granted owner ino fl else granted
  | .flush _ | .release _ => dropLocks granted owner ino
  | _ => granted

def Exclusion (granted : List RecordLock) (ino : Nat) : Prop :=
  ∀ o o' p w w', o ≠ o' → heldAt granted o ino p = some w → heldAt granted o' ino p = some w' →
    w = false ∧ w' = false

/-- What has been granted is in force for the process `pid`. -/
def InForce (locks granted : List RecordLock) (pid ino : Nat) : Prop :=
  ∀ o p w, heldAt granted o ino p = some w → heldAt locks pid ino p = some w

/-- A lock excludes no other client's, an unlocked range has none of them, and
neither has the file when it is flushed or released. -/
def Fair (granted : List RecordLock) (owner ino : Nat) : Request → Prop
  | .lock _ _ fl => ∀ o p w, o ≠ owner → (Range.ofFlock fl.start fl.len).has p = true →
      heldAt granted o ino p = some w → fl.type = .rdlck ∧ w = false
  | _ => ∀ o p w, o ≠ owner → heldAt granted o ino p ≠ some w

section
variable {granted locks : List RecordLock} {owner pid ino : Nat} {fl : Flock} {path : CStr}
  {cmd : LockCmd}

theorem exclusion_setLock (he : Exclusion granted ino)
    (hf : Fair granted owner ino (.lock path cmd fl)) :
    Exclusion (setLock granted owner ino fl) ino := by
  intro o o' p w w' hne ho ho'
  rw [heldAt_setLock] at ho ho'
  have hread {q : Nat} {v v' : Bool} (hq : q ≠ owner)
      (hp : (Range.ofFlock fl.start fl.len).has p = true) (hold : heldAt granted q ino p = some v)
      (hnew : (if fl.type = .unlck then none else some (decide (fl.type = .wrlck))) = some v') :
      v = false ∧ v' = false := by
    obtain ⟨ht, rfl⟩ := hf q p v hq hp hold
    simp only [ht, reduceCtorEq, ↓reduceIte, decide_false, Option.some.injEq] at hnew
    exact ⟨rfl, hnew.symm⟩
  split at ho
  · rename_i h
    rw [if_neg fun h' => hne (h.1.trans h'.1.symm)] at ho'
    exact (hread (fun h' => hne (h.1.trans h'.symm)) h.2.2 ho' ho).symm
  · split at ho'
    · rename_i h
      exact hread (fun h' => hne (h'.trans h.1.symm)) h.2.2 ho ho'
    · exact he o o' p w w' hne ho ho'

theorem inForce_setLock (hi : ∀ o p w, heldAt granted o ino p = some w →
      (Range.ofFlock fl.start fl.len).has p = true ∨ heldAt locks pid ino p = some w)
    (hf : Fair granted owner ino (.lock path cmd fl)) :
    InForce (setLock locks pid ino fl) (setLock granted owner ino fl) pid ino := by
  intro o p w ho
  rw [heldAt_setLock] at ho ⊢
  by_cases hp : (Range.ofFlock fl.start fl.len).has p = true
  · by_cases hown : o = owner
    · simpa only [hp, hown, true_and, ↓reduceIte] using ho
    · simp only [hown, false_and, ↓reduceIte] at ho
      obtain ⟨ht, rfl⟩ := hf o p w hown hp ho
      simp [hp, ht]
  · simp only [hp, and_false, ↓reduceIte, Bool.false_eq_true] at ho ⊢
    exact (hi o p w ho).resolve_left hp

theorem fair_of_setLock (he : Exclusion (setLock granted owner ino fl) ino)
    (hi : InForce (setLock locks pid ino fl) (setLock granted owner ino fl) pid ino) :
    Fair granted owner ino (.lock path cmd fl) := by
  intro o p w hown hp ho
  have ho' : heldAt (setLock granted owner ino fl) o ino p = some w := by
    rw [heldAt_setLock, if_neg fun h => hown h.1, ho]
  have hkept := hi o p w ho'
  rw [heldAt_setLock, if_pos ⟨rfl, rfl, hp⟩] at hkept
  have hnew : heldAt (setLock granted owner ino fl) owner ino p = some w := by
    rw [heldAt_setLock, if_pos ⟨rfl, rfl, hp⟩, hkept]
  obtain ⟨hw, -⟩ := he o owner p w w hown ho' hnew
  subst hw
  cases ht : fl.type with
  | rdlck => exact ⟨rfl, rfl⟩
  | wrlck => simp [ht] at hkept
  | unlck => simp [ht] at hkept

theorem exclusion_dropLocks (he : Exclusion granted ino) :
    Exclusion (dropLocks granted owner ino) ino := by
  intro o o' p w w' hne ho ho'
  rw [heldAt_dropLocks] at ho ho'
  split at ho
  · cases ho
  · split at ho'
    · cases ho'
    · exact he o o' p w w' hne ho ho'

theorem inForce_dropLocks_of_fair (hf : ∀ o p w, o ≠ owner → heldAt granted o ino p ≠ some w) :
    InForce locks (dropLocks granted owner ino) pid ino := by
  intro o p w ho
  rw [heldAt_dropLocks] at ho
  split at ho
  · cases ho
  · rename_i hown
    exact absurd ho (hf o p w fun h => hown ⟨h, rfl⟩)

theorem fair_of_dropLocks
    (hi : InForce (dropLocks locks pid ino) (dropLocks granted owner ino) pid ino) :
    ∀ o p w, o ≠ owner → heldAt granted o ino p ≠ some w := by
  intro o p w hown ho
  have hkept := hi o p w (by rw [heldAt_dropLocks, if_neg fun h => hown h.1, ho])
  rw [heldAt_dropLocks, if_pos ⟨rfl, rfl⟩] at hkept
  cases hkept

end

-- ---------------------------------------------------------------------------
-- What the calls do to the kernel's locks
-- ---------------------------------------------------------------------------

section
variable {P : Platform} {b : Base} {d : Desc} {fd : Int} {fuel : Nat} {l : Local}
  {fi : FuseFileInfo}

theorem kernel_setlk (hd : b.desc fd = .ok d) (fl : Flock) :
    (∃ e, kernel P (.fcntl fd .setlk fl) b = (.fail e, b)) ∨
    ∃ data, kernel P (.fcntl fd .setlk fl) b =
      (.done 0 data, { b with locks := setLock b.locks b.pid d.ino fl }) := by
  have hk : kernel P (.fcntl fd .setlk fl) b = b.enter (b.fcntl fd .setlk fl) := rfl
  rw [hk]
  rcases h : b.fcntl fd .setlk fl with e | ⟨ret, data, b'⟩
  · exact .inl ⟨e, rfl⟩
  · refine .inr ⟨data, ?_⟩
    simp only [Base.fcntl, bind_ok] at h
    obtain ⟨d', hd', h⟩ := h
    obtain rfl := Except.ok.inj (hd.symm.trans hd')
    split at h
    · rename_i hc _
      cases hc
    · rename_i hc _
      cases hc
    · rename_i ht _
      cases h
      simp only [Base.enter, setLock, ht, ↓reduceIte]
    · rename_i ht _
      have ht : fl.type ≠ .unlck := ht
      simp only [bind_ok, refuse_ok] at h
      obtain ⟨-, -, h⟩ := h
      split at h
      · cases h
      · cases h
        simp only [Base.enter, setLock, ht, ↓reduceIte]

theorem flush_locks {path : CStr} (hfi : l.fi = some fi) (hd : b.desc (toInt fi.fh) = .ok d) :
    ∃ out b', (((Request.flush path).operation fuel).body l).run (kernel P) b = some (out, b') ∧
      b'.fds = b.fds ∧ b'.pid = b.pid ∧
      (out.1 = 0 ∧ b'.locks = dropLocks b.locks b.pid d.ino ∨ out.1 ≠ 0 ∧ b'.locks = b.locks) := by
  simp only [Request.operation, unreliableFlush, Body.bind_apply, fh_apply l hfi, Prog.done_bind]
  rcases hdup : (kernel P (.dup (toInt fi.fh)) b).1 with e | ⟨new, data⟩
  · have hb : (kernel P (.dup (toInt fi.fh)) b).2 = b := Base.enter_fail hdup
    have hclose : (kernel P (.close (-1)) b).1 = .fail .EBADF := rfl
    rw [sys_run_fail hdup, hb, forward_run_fail hclose]
    exact ⟨_, _, rfl, rfl, rfl, .inr ⟨(by decide : -(Errno.EBADF.code : Int) ≠ 0), rfl⟩⟩
  · obtain ⟨d', hd', hfree, hb⟩ := kernel_dup hdup
    obtain rfl := Except.ok.inj (hd.symm.trans hd')
    have hnew : (b.setFd new (some d)).desc new = .ok d := by
      refine Base.desc_ok.mpr ⟨by omega, ?_⟩
      rw [Int.toNat_natCast]
      exact Function.update_self ..
    have hclose := kernel_close_of_desc (P := P) hnew
    rw [sys_run_done hdup, hb, forward_run_done (congrArg Prod.fst hclose), hclose,
      Int.toNat_natCast]
    exact ⟨_, _, rfl, (sameTable_dup_close hfree).fds, rfl, .inl ⟨rfl, rfl⟩⟩

theorem release_locks {path : CStr} (hfi : l.fi = some fi) (hd : b.desc (toInt fi.fh) = .ok d) :
    (((Request.release path).operation fuel).body l).run (kernel P) b =
      some ((0, l), b.closeFd (toInt fi.fh).toNat d) := by
  have hcall : (Request.release path).call? l.fi = some (.close (toInt fi.fh)) := by
    rw [hfi]
    rfl
  rw [Request.run_of_call? hcall, kernel_close_of_desc hd]
  rfl

end

-- ---------------------------------------------------------------------------
-- Shared sessions
-- ---------------------------------------------------------------------------

structure Shared where
  session : Session Base
  granted : List RecordLock

namespace Shared

/-- Handles of one file, which belong to clients. -/
structure Clients where
  file : Ino
  owner : Nat → Nat
  handles : Nat → Prop

variable (P : Platform) (E : Setup) (fuel : Nat) (C : Clients) (t : Shared) (i : Incoming)

abbrev base : Base := t.session.world.base

abbrev atBody : Base := t.session.baseAtBody i (posix P) E

def serve : Machine Shared Incoming (Int × Local) := fun t i =>
  (t.session.serve (posix P) E fuel i).map fun r =>
    (r.1, ⟨r.2, grantedAfter t.granted (C.owner i.handle) C.file i.request r.1.1⟩)

def locks : Request → Bool
  | .lock _ .setlk _ | .flush _ | .release _ => true
  | _ => false

/-- A request about locks on a handle of the clients, with no fault injected. -/
structure Asked : Prop where
  proper : t.session.Proper i
  locks : locks i.request = true
  handle : C.handles i.handle
  noFault : t.session.code i (posix P) E = 0

/-- The daemon reads and closes the file before the body: it is its configuration. -/
def Reloads : Prop := i.request.path = E.configPath ∧ (t.base.slurp i.request.path).isSome = true ∧
  ∃ p, t.base.tree.find t.base.cwd true i.request.path = .ok (p, C.file)

/-- A lock is for all that is locked, and is given. -/
def Regains : Prop := ∀ path cmd fl, i.request = .lock path cmd fl → ∀ o p w,
  heldAt t.granted o C.file p = some w → (Range.ofFlock fl.start fl.len).has p = true ∧
    ∀ out t', serve P E fuel C t i = some (out, t') → out.1 = 0

structure IsFair : Prop where
  fair : Fair t.granted (C.owner i.handle) C.file i.request
  regains : t.Reloads E C i → t.Regains P E fuel C i

structure Ready : Prop where
  desc : ∀ id h, C.handles id → t.session.handles id = some h →
    ∃ d, t.base.desc (toInt h.fi.fh) = .ok d ∧ d.ino = C.file
  own : ∀ id id' h h', C.handles id → C.handles id' → t.session.handles id = some h →
    t.session.handles id' = some h' → toInt h.fi.fh = toInt h'.fi.fh → id = id'

/-- Granted locks exclude each other and are in force. -/
structure Sound : Prop where
  exclusion : Exclusion t.granted C.file
  inForce : InForce t.base.locks t.granted t.base.pid C.file

-- ---------------------------------------------------------------------------
-- One request
-- ---------------------------------------------------------------------------

variable {P E fuel C t i} {t' : Shared} {out : Int × Local}

theorem serve_some (hs : serve P E fuel C t i = some (out, t')) :
    t.session.serve (posix P) E fuel i = some (out, t'.session) ∧
      t'.granted = grantedAfter t.granted (C.owner i.handle) C.file i.request out.1 := by
  obtain ⟨r, hr, he⟩ := Option.map_eq_some_iff.mp hs
  cases he
  exact ⟨hr, rfl⟩

theorem heldAt_atBody (P : Platform) (E : Setup) (C : Clients) (t : Shared) (i : Incoming) (p : Nat) :
    (¬t.Reloads E C i → heldAt (t.atBody P E i).locks t.base.pid C.file p =
      heldAt t.base.locks t.base.pid C.file p) ∧
    (t.Reloads E C i → heldAt (t.atBody P E i).locks t.base.pid C.file p = none) := by
  unfold Reloads
  by_cases hp : i.request.path = E.configPath
  · have hbase : t.atBody P E i = (posix P).afterLoad t.base i.request.path := by
      unfold atBody Session.baseAtBody
      rw [hp, OS.atBody_config]
    rw [hbase, OS.afterLoad]
    cases hf : t.base.tree.find t.base.cwd true i.request.path with
    | error e =>
      have hno : (posix P).access t.base i.request.path = -1 := by
        simp only [posix]
        rw [hf]
      rw [if_neg (hno ▸ by decide)]
      simp
    | ok found =>
      have hyes : (posix P).access t.base i.request.path = 0 := by
        simp only [posix]
        rw [hf]
      have hslurped : (posix P).slurped t.base i.request.path = t.base.slurped i.request.path := rfl
      rw [if_pos hyes, hslurped, Base.slurped, hf]
      obtain ⟨q, ino⟩ := found
      cases t.base.slurp i.request.path with
      | none => simp
      | some bytes =>
        simp only [heldAt_dropLocks, true_and, Option.isSome_some, hp, Except.ok.injEq, Prod.mk.injEq]
        by_cases hino : C.file = ino
        · simp [hino]
        · have hne : ino ≠ C.file := fun h => hino h.symm
          simp [hino, hne]
  · have hbase : t.atBody P E i = t.base := OS.atBody_other _ hp _
    rw [hbase]
    exact ⟨fun _ => rfl, fun h => absurd h.1 hp⟩

theorem Asked.executed (ha : t.Asked P E C i) (hr : t.Ready C)
    (hs : serve P E fuel C t i = some (out, t')) : ∃ h d,
      t.session.handles i.handle = some h ∧ (t.session.locals i).fi = some h.fi ∧
      (t.atBody P E i).desc (toInt h.fi.fh) = .ok d ∧ d.ino = C.file ∧
      ((i.request.operation fuel).body (t.session.locals i)).run (kernel P) (t.atBody P E i) =
        some (out, t'.base) ∧
      t'.session.handles = (if i.request.closes then
        Function.update t.session.handles i.handle none else t.session.handles) ∧
      t'.granted = grantedAfter t.granted (C.owner i.handle) C.file i.request out.1 := by
  obtain ⟨hserve, hgranted⟩ := serve_some hs
  obtain ⟨b', hb, hw, hh⟩ := Session.serve_executed ha.noFault hserve
  have hkind : i.request.handleKind? = some .file := by
    have hl := ha.locks
    cases hreq : i.request <;> rw [hreq] at hl <;> first | rfl | cases hl
  have hopen : i.request.opens? = none := Request.opens?_of_handleKind? hkind
  obtain ⟨h, hid, -, hfi⟩ := ha.proper.fileInfo hkind
  obtain ⟨d, hd, hino⟩ := hr.desc i.handle h ha.handle hid
  rw [Session.handlesAfter_closed hopen] at hh
  have hbase : t'.base = b' := congrArg World.base hw
  have hd' := (atBody_desc P E t.base i.request.path (toInt h.fi.fh)).trans hd
  exact ⟨h, d, hid, hfi, hd', hino, hbase ▸ hb, hh, hgranted⟩

theorem serve_lock {path : CStr} {fl : Flock} (ha : t.Asked P E C i) (hr : t.Ready C)
    (hs : serve P E fuel C t i = some (out, t')) (hreq : i.request = .lock path .setlk fl) :
    t'.session.handles = t.session.handles ∧ t'.base.fds = t.base.fds ∧
      t'.base.pid = t.base.pid ∧
      (out.1 = 0 ∧ t'.base.locks = setLock (t.atBody P E i).locks t.base.pid C.file fl ∧
          t'.granted = setLock t.granted (C.owner i.handle) C.file fl ∨
        out.1 ≠ 0 ∧ t'.base.locks = (t.atBody P E i).locks ∧ t'.granted = t.granted) := by
  have hpid : (t.atBody P E i).pid = t.base.pid := atBody_pid P E t.base i.request.path
  have hfds : (t.atBody P E i).fds = t.base.fds := atBody_fds P E t.base i.request.path
  obtain ⟨h, d, -, hfi, hd, hino, hb, hh, hg⟩ := ha.executed hr hs
  rw [hreq] at hb hh hg
  have hcall : (Request.lock path .setlk fl).call? (t.session.locals i).fi =
      some (.fcntl (toInt h.fi.fh) .setlk fl) := by
    rw [hfi]
    rfl
  rw [Request.run_of_call? hcall, Option.some.injEq, Prod.mk.injEq] at hb
  obtain ⟨e, hk⟩ | ⟨data, hk⟩ := kernel_setlk (P := P) hd fl
  · rw [hk] at hb
    have hne : out.1 ≠ 0 := by
      rw [← hb.1]
      exact Int.ne_of_lt (Request.finish_fail_neg ..)
    rw [← hb.2]
    exact ⟨hh, hfds, hpid, .inr ⟨hne, rfl, by simpa [grantedAfter, hne] using hg⟩⟩
  · rw [hk, hino, hpid] at hb
    have hzero : out.1 = 0 := by
      rw [← hb.1]
      rfl
    rw [← hb.2]
    exact ⟨hh, hfds, rfl, .inl ⟨hzero, rfl, by simpa [grantedAfter, hzero] using hg⟩⟩

theorem serve_flush {path : CStr} (ha : t.Asked P E C i) (hr : t.Ready C)
    (hs : serve P E fuel C t i = some (out, t')) (hreq : i.request = .flush path) :
    t'.session.handles = t.session.handles ∧ t'.base.fds = t.base.fds ∧
      t'.base.pid = t.base.pid ∧ t'.granted = dropLocks t.granted (C.owner i.handle) C.file ∧
      (out.1 = 0 → t'.base.locks = dropLocks (t.atBody P E i).locks t.base.pid C.file) := by
  have hpid : (t.atBody P E i).pid = t.base.pid := atBody_pid P E t.base i.request.path
  have hfds : (t.atBody P E i).fds = t.base.fds := atBody_fds P E t.base i.request.path
  obtain ⟨h, d, -, hfi, hd, hino, hb, hh, hg⟩ := ha.executed hr hs
  rw [hreq] at hb hh hg
  obtain ⟨out', b', hrun, hfds', hpid', hlocks⟩ := flush_locks (P := P) hfi hd
  rw [hrun] at hb
  cases hb
  rw [hino, hpid] at hlocks
  refine ⟨hh, hfds'.trans hfds, hpid'.trans hpid, hg, fun hrc => ?_⟩
  obtain ⟨-, hlocks⟩ | ⟨hne, -⟩ := hlocks
  · exact hlocks
  · exact absurd hrc hne

theorem serve_release {path : CStr} (ha : t.Asked P E C i) (hr : t.Ready C)
    (hs : serve P E fuel C t i = some (out, t')) (hreq : i.request = .release path) : ∃ h,
    t.session.handles i.handle = some h ∧
      t'.session.handles = Function.update t.session.handles i.handle none ∧
      t'.base.fds = Function.update t.base.fds (toInt h.fi.fh).toNat none ∧
      t'.base.pid = t.base.pid ∧ t'.granted = dropLocks t.granted (C.owner i.handle) C.file ∧
      t'.base.locks = dropLocks (t.atBody P E i).locks t.base.pid C.file := by
  have hpid : (t.atBody P E i).pid = t.base.pid := atBody_pid P E t.base i.request.path
  have hfds : (t.atBody P E i).fds = t.base.fds := atBody_fds P E t.base i.request.path
  obtain ⟨h, d, hid, hfi, hd, hino, hb, hh, hg⟩ := ha.executed hr hs
  rw [hreq] at hb hh hg
  rw [release_locks hfi hd, Option.some.injEq, Prod.mk.injEq] at hb
  rw [← hb.2, ← hino, ← hpid, ← hfds]
  exact ⟨h, hid, hh, rfl, rfl, hino ▸ hg, rfl⟩

theorem Asked.request (ha : t.Asked P E C i) : (∃ path fl, i.request = .lock path .setlk fl) ∨
    (∃ path, i.request = .flush path) ∨ ∃ path, i.request = .release path := by
  have hl := ha.locks
  cases hreq : i.request with
  | lock path cmd fl =>
    rw [hreq] at hl
    cases cmd with
    | setlk => exact .inl ⟨path, fl, rfl⟩
    | _ => cases hl
  | flush path => exact .inr (.inl ⟨path, rfl⟩)
  | release path => exact .inr (.inr ⟨path, rfl⟩)
  | _ =>
    rw [hreq] at hl
    cases hl

-- ---------------------------------------------------------------------------
-- Runs
-- ---------------------------------------------------------------------------

theorem Ready.of_same (hr : t.Ready C) (hh : t'.session.handles = t.session.handles)
    (hf : t'.base.fds = t.base.fds) : t'.Ready C where
  desc id h hc hid := by
    obtain ⟨d, hd, hino⟩ := hr.desc id h hc (hh ▸ hid)
    exact ⟨d, Base.desc_ok.mpr (hf ▸ Base.desc_ok.mp hd), hino⟩
  own id id' h h' hc hc' hid hid' := hr.own id id' h h' hc hc' (hh ▸ hid) (hh ▸ hid')

theorem Ready.step (hr : t.Ready C) (ha : t.Asked P E C i)
    (hs : serve P E fuel C t i = some (out, t')) : t'.Ready C := by
  obtain ⟨path, fl, hreq⟩ | ⟨path, hreq⟩ | ⟨path, hreq⟩ := ha.request
  · obtain ⟨hh, hf, -⟩ := serve_lock ha hr hs hreq
    exact hr.of_same hh hf
  · obtain ⟨hh, hf, -⟩ := serve_flush ha hr hs hreq
    exact hr.of_same hh hf
  · obtain ⟨h, hid, hh, hf, -⟩ := serve_release ha hr hs hreq
    have hlive {id : Nat} {h' : Handle} (hid' : t'.session.handles id = some h') :
        id ≠ i.handle ∧ t.session.handles id = some h' := by
      rw [hh] at hid'
      by_cases he : id = i.handle
      · rw [he, Function.update_self] at hid'
        cases hid'
      · rw [Function.update_of_ne he] at hid'
        exact ⟨he, hid'⟩
    refine ⟨fun id h' hc hid' => ?_, fun id id' h₁ h₂ hc hc' h₁' h₂' =>
      hr.own id id' h₁ h₂ hc hc' (hlive h₁').2 (hlive h₂').2⟩
    obtain ⟨hne, hold⟩ := hlive hid'
    obtain ⟨d, hd, hino⟩ := hr.desc id h' hc hold
    obtain ⟨hpos, hfd⟩ := Base.desc_ok.mp hd
    obtain ⟨d₀, hd₀, -⟩ := hr.desc i.handle h ha.handle hid
    have hpos₀ := (Base.desc_ok.mp hd₀).1
    refine ⟨d, Base.desc_ok.mpr ⟨hpos, ?_⟩, hino⟩
    -- the descriptor closed is another one
    have hother : (toInt h'.fi.fh).toNat ≠ (toInt h.fi.fh).toNat := fun he =>
      hne (hr.own id i.handle h' h hc ha.handle hold hid (by omega))
    rw [hf, Function.update_of_ne hother]
    exact hfd

theorem Sound.step (hr : t.Ready C) (hsound : t.Sound C) (ha : t.Asked P E C i)
    (hfair : t.IsFair P E fuel C i) (hs : serve P E fuel C t i = some (out, t')) : t'.Sound C := by
  obtain ⟨hfair, hregains⟩ := hfair
  obtain ⟨path, fl, hreq⟩ | ⟨path, hreq⟩ | ⟨path, hreq⟩ := ha.request
  · have hleft (o p : Nat) (w : Bool) (ho : heldAt t.granted o C.file p = some w) :
        ((Range.ofFlock fl.start fl.len).has p = true ∧ out.1 = 0) ∨
          heldAt (t.atBody P E i).locks t.base.pid C.file p = some w := by
      by_cases hreload : t.Reloads E C i
      · obtain ⟨hp, hdone⟩ := hregains hreload path .setlk fl hreq o p w ho
        exact .inl ⟨hp, hdone out t' hs⟩
      · exact .inr (((heldAt_atBody P E C t i p).1 hreload).trans (hsound.inForce o p w ho))
    obtain ⟨-, -, hpid, ⟨-, hl, hg⟩ | ⟨hne, hl, hg⟩⟩ := serve_lock ha hr hs hreq
    · rw [hreq] at hfair
      refine ⟨?_, ?_⟩
      · rw [hg]
        exact exclusion_setLock hsound.exclusion hfair
      · rw [hg, hl, hpid]
        exact inForce_setLock (fun o p w ho => (hleft o p w ho).imp_left And.left) hfair
    · refine ⟨?_, ?_⟩
      · rw [hg]
        exact hsound.exclusion
      · rw [hg, hl, hpid]
        exact fun o p w ho => (hleft o p w ho).resolve_left fun h => hne h.2
  · obtain ⟨-, -, -, hg, -⟩ := serve_flush ha hr hs hreq
    rw [hreq] at hfair
    refine ⟨?_, ?_⟩
    · rw [hg]
      exact exclusion_dropLocks hsound.exclusion
    · rw [hg]
      exact inForce_dropLocks_of_fair hfair
  · obtain ⟨h, -, -, -, -, hg, -⟩ := serve_release ha hr hs hreq
    rw [hreq] at hfair
    refine ⟨?_, ?_⟩
    · rw [hg]
      exact exclusion_dropLocks hsound.exclusion
    · rw [hg]
      exact inForce_dropLocks_of_fair hfair

theorem fair_of_sound (hr : t.Ready C) (ha : t.Asked P E C i)
    (hs : serve P E fuel C t i = some (out, t')) (hrc : out.1 = 0) (hsound : t'.Sound C) :
    t.IsFair P E fuel C i := by
  have hdone (out' : Int × Local) (t'' : Shared) (hs' : serve P E fuel C t i = some (out', t'')) :
      out'.1 = 0 := by
    cases hs.symm.trans hs'
    exact hrc
  have hx := hsound.exclusion
  have hi := hsound.inForce
  obtain ⟨path, fl, hreq⟩ | ⟨path, hreq⟩ | ⟨path, hreq⟩ := ha.request
  · obtain ⟨-, -, hpid, ⟨-, hl, hg⟩ | ⟨hne, -⟩⟩ := serve_lock ha hr hs hreq
    · rw [hg] at hx
      rw [hg, hl, hpid] at hi
      refine ⟨hreq ▸ fair_of_setLock hx hi, ?_⟩
      rintro hreload path' cmd fl' hreq' o p w ho
      cases hreq.symm.trans hreq'
      refine ⟨by_contra fun hp => ?_, hdone⟩
      -- outside of the range nothing is in force any more
      have hlost := hi o p w (by rw [heldAt_setLock, if_neg fun h => hp h.2.2, ho])
      rw [heldAt_setLock, if_neg fun h => hp h.2.2, (heldAt_atBody P E C t i p).2 hreload] at hlost
      cases hlost
    · exact absurd hrc hne
  · obtain ⟨-, -, hpid, hg, hl⟩ := serve_flush ha hr hs hreq
    rw [hg, hl hrc, hpid] at hi
    refine ⟨hreq ▸ fair_of_dropLocks hi, ?_⟩
    intro _ path' cmd fl' hreq'
    cases hreq.symm.trans hreq'
  · obtain ⟨h, -, -, -, hpid, hg, hl⟩ := serve_release ha hr hs hreq
    rw [hg, hl, hpid] at hi
    refine ⟨hreq ▸ fair_of_dropLocks hi, ?_⟩
    intro _ path' cmd fl' hreq'
    cases hreq.symm.trans hreq'

end Shared

/-- In a run of fair requests no two clients hold conflicting locks, and every
lock is in force until its owner gives it up; and a request that is not fair,
but succeeds, is the end of that. -/
theorem locks_sound_of_fair (P : Platform) (E : Setup) (fuel : Nat) (C : Shared.Clients)
    (s₀ : Session Base) (t : Shared) (hr : Shared.Ready C ⟨s₀, []⟩)
    (h : Reachable (Shared.serve P E fuel C) (fun t i => t.Asked P E C i ∧ t.IsFair P E fuel C i)
      ⟨s₀, []⟩ t) :
    t.Sound C ∧ ∀ i out t', t.Asked P E C i → Shared.serve P E fuel C t i = some (out, t') →
      out.1 = 0 → (t'.Sound C ↔ t.IsFair P E fuel C i) := by
  have hinv : t.Ready C ∧ t.Sound C := by
    refine h.invariant (I := fun t => t.Ready C ∧ t.Sound C) (fun t i out t' ht hg hs => ?_)
      ⟨hr, ⟨?_, ?_⟩⟩
    · exact ⟨ht.1.step hg.1 hs, ht.2.step ht.1 hg.1 hg.2 hs⟩
    · rintro o o' p w w' - ⟨⟩
    · rintro o p w ⟨⟩
  refine ⟨hinv.2, fun i out t' ha hs hrc => ⟨?_, ?_⟩⟩
  · exact Shared.fair_of_sound hinv.1 ha hs hrc
  · exact fun hfair => hinv.2.step hinv.1 ha hfair hs

namespace Shared

def twoClients : Clients where
  file := 1
  owner := id
  handles := fun id => id = 0 ∨ id = 1

def fileTree : Tree where
  names := [([ascii "f"], 1), ([], 0)]
  node := fun i => if i = 1 then { content := .regular [] } else { content := .directory }
  next := 2
  lt_next := by decide

def twoOpen : Session Base where
  world := { bootWorld fileTree none with
    base := { Base.boot fileTree with
      fds := fun fd => if fd < 5 then some ⟨fd, if fd < 3 then 0 else 1, .rdwr, false⟩ else none
      nextDesc := 5 } }
  handles := fun id =>
    if id < 2 then some ⟨{ flags := { acc := .rdwr }, fh := 3 + id }, ascii "/f", .file⟩ else none

def lockAll (id : Nat) : Incoming := ⟨.lock (ascii "/f") .setlk ⟨.wrlck, 0, 0, 0⟩, id, .zero⟩

theorem twoOpen_ready : Ready twoClients ⟨twoOpen, []⟩ where
  desc id h hc hid := by
    obtain rfl | rfl := hc
    · cases hid
      exact ⟨⟨3, 1, .rdwr, false⟩, rfl, rfl⟩
    · cases hid
      exact ⟨⟨4, 1, .rdwr, false⟩, rfl, rfl⟩
  own id id' h h' hc hc' hid hid' he := by
    obtain rfl | rfl := hc <;> obtain rfl | rfl := hc' <;> cases hid <;> cases hid' <;>
      first | rfl | exact absurd he (by decide)

theorem lockAll_asked {t : Shared} {id : Nat} (hid : id = 0 ∨ id = 1)
    (hh : t.session.handles = twoOpen.handles) (he : t.session.world.errors = none) :
    t.Asked .small (smallSetup (ascii "/c")) twoClients (lockAll id) where
  proper := ⟨fun h => absurd rfl h, fun k hk => by
    obtain rfl : Request.HandleKind.file = k := Option.some.inj hk
    rw [hh]
    obtain rfl | rfl := hid
    · exact ⟨_, rfl, rfl⟩
    · exact ⟨_, rfl, rfl⟩⟩
  locks := rfl
  handle := hid
  noFault := decision_of_none he ..

end Shared

theorem lock_sound_of_alone : ∃ t : Shared, heldAt t.granted 0 1 7 = some true ∧
    t.Sound Shared.twoClients := by
  obtain ⟨⟨out, t⟩, hs⟩ := Option.isSome_iff_exists.mp
    (by decide : (Shared.serve .small (smallSetup (ascii "/c")) 0 Shared.twoClients
      ⟨Shared.twoOpen, []⟩ (Shared.lockAll 0)).isSome)
  have hheld : (Shared.serve .small (smallSetup (ascii "/c")) 0 Shared.twoClients
      ⟨Shared.twoOpen, []⟩ (Shared.lockAll 0)).map (fun r => heldAt r.2.granted 0 1 7) =
        some (some true) := by decide
  rw [hs] at hheld
  refine ⟨t, Option.some.inj hheld, ?_⟩
  refine (locks_sound_of_fair .small (smallSetup (ascii "/c")) 0 _ _ t Shared.twoOpen_ready
    (.step .refl ⟨Shared.lockAll_asked (.inl rfl) rfl rfl, ?_, ?_⟩ hs)).1
  · rintro o p w - - ⟨⟩
  · exact fun hreload => absurd hreload.1 (by decide)

/-- Two clients are granted a write lock on the same byte. -/
theorem both_granted_write_lock : Shared.Ready Shared.twoClients ⟨Shared.twoOpen, []⟩ ∧
    ∃ t : Shared, Reachable (Shared.serve .small (smallSetup (ascii "/c")) 0 Shared.twoClients)
      (fun t i => t.Asked .small (smallSetup (ascii "/c")) Shared.twoClients i)
      ⟨Shared.twoOpen, []⟩ t ∧
    heldAt t.granted 0 1 7 = some true ∧ heldAt t.granted 1 1 7 = some true := by
  refine ⟨Shared.twoOpen_ready, ?_⟩
  obtain ⟨⟨out, t⟩, hs⟩ := Option.isSome_iff_exists.mp
    (by decide : (Shared.serve .small (smallSetup (ascii "/c")) 0 Shared.twoClients
      ⟨Shared.twoOpen, []⟩ (Shared.lockAll 0)).isSome)
  have ha := Shared.lockAll_asked (t := ⟨Shared.twoOpen, []⟩) (.inl rfl) rfl rfl
  have hh := (Shared.serve_lock ha Shared.twoOpen_ready hs rfl).1
  have he : t.session.world.errors = none := by
    rw [Session.serve_errors (Shared.serve_some hs).1]
    rfl
  have hheld : ((Shared.serve .small (smallSetup (ascii "/c")) 0 Shared.twoClients
      ⟨Shared.twoOpen, []⟩ (Shared.lockAll 0)).bind fun r =>
        Shared.serve .small (smallSetup (ascii "/c")) 0 Shared.twoClients r.2 (Shared.lockAll 1)).map
      (fun r => (heldAt r.2.granted 0 1 7, heldAt r.2.granted 1 1 7)) =
        some (some true, some true) := by decide
  rw [hs, Option.bind_some] at hheld
  obtain ⟨⟨out', t'⟩, hs', hgranted⟩ := Option.map_eq_some_iff.mp hheld
  have ha' := Shared.lockAll_asked (.inr rfl) hh he
  exact ⟨t', .step (.step .refl ha hs) ha' hs', congrArg Prod.fst hgranted,
    congrArg Prod.snd hgranted⟩

namespace Shared

def lockTen (id start : Nat) : Incoming :=
  ⟨.lock (ascii "/f") .setlk ⟨.wrlck, start, 10, 0⟩, id, .zero⟩

def ConfigRun (t : Shared) : Prop :=
  Reachable (serve .small (smallSetup (ascii "/f")) 0 twoClients)
    (fun t i => t.Asked .small (smallSetup (ascii "/f")) twoClients i ∧
      Fair t.granted (twoClients.owner i.handle) twoClients.file i.request) ⟨twoOpen, []⟩ t

theorem ConfigRun.step {t : Shared} {i : Incoming} {r : (Int × Local) × Shared} (h : ConfigRun t)
    (ha : t.Asked .small (smallSetup (ascii "/f")) twoClients i)
    (hf : Fair t.granted (twoClients.owner i.handle) twoClients.file i.request)
    (hs : serve .small (smallSetup (ascii "/f")) 0 twoClients t i = some r) : ConfigRun r.2 :=
  Reachable.step h ⟨ha, hf⟩ hs

/-- A lock is lost to another one elsewhere in the file. -/
theorem lock_lost_in_reload : ∃ t : Shared, ConfigRun t ∧ heldAt t.granted 0 1 7 = some true ∧
    heldAt t.base.locks t.base.pid 1 7 = none := by
  have hproper {t : Shared} {id start : Nat} (hid : id = 0 ∨ id = 1)
      (hh : t.session.handles = twoOpen.handles) : t.session.Proper (lockTen id start) := by
    refine ⟨fun h => absurd rfl h, fun k hk => ?_⟩
    obtain rfl : Request.HandleKind.file = k := Option.some.inj hk
    rw [hh]
    obtain rfl | rfl := hid <;> exact ⟨_, rfl, rfl⟩
  have h := ConfigRun.step (i := lockTen 0 0) .refl
    ⟨hproper (.inl rfl) rfl, rfl, .inl rfl, by decide⟩ (by rintro o p w - - ⟨⟩) rfl
  have h := h.step (i := lockTen 1 20)
    ⟨hproper (.inr rfl) rfl, rfl, .inr rfl, by decide⟩ ?_ rfl
  · exact ⟨_, h, by decide, by decide⟩
  · intro o p w hne hp ho
    -- the first lock is on other bytes
    have ho : heldAt (setLock [] 0 1 ⟨.wrlck, 0, 10, 0⟩) o 1 p = some w := ho
    rw [heldAt_setLock] at ho
    split at ho
    · rename_i hheld
      have hfirst := hheld.2.2
      simp [Range.ofFlock, Range.has] at hfirst hp
      omega
    · cases ho

end Shared

end UnreliableFS
