import UnreliableFS.CString
import UnreliableFS.Extent
import UnreliableFS.Ring
import UnreliableFS.Interaction.Judge

/-!
# The exerciser

`tests/fsx.c`: random reads, writes, truncations and mappings of one file, with a
copy of what the file should hold in `good_buf`. An operation is a program over
`fsxSig`: the random numbers it draws, its calls on the file, and what it loads
from and stores into its mapping. Sizes stay below `2 ^ 31`, so they are natural
numbers, and the counts of operations are taken to do so. An access outside of a
buffer is undefined behaviour, and the program is stuck. What is printed is left out
but for the dump of the log, and for what is read in order to print it.
-/

namespace UnreliableFS.Fsx

open Interaction Extents Rings

-- ---------------------------------------------------------------------------
-- Buffers
-- ---------------------------------------------------------------------------

structure Buffer (n : Nat) where
  bytes : List UInt8
  length_eq : bytes.length = n

namespace Buffer

variable {n : Nat}

def zeros (n : Nat) : Buffer n := ⟨List.replicate n 0, List.length_replicate⟩

def get? (b : Buffer n) (offset : Nat) : Option UInt8 := b.bytes[offset]?

def put? (b : Buffer n) (offset : Nat) (v : UInt8) : Option (Buffer n) :=
  if offset < n then some ⟨b.bytes.set offset v, by rw [List.length_set, b.length_eq]⟩ else none

def clear? (b : Buffer n) : Nat → Nat → Option (Buffer n)
  | _, 0 => some b
  | offset, size + 1 => (b.put? offset 0).bind fun b => b.clear? (offset + 1) size

def read? (b : Buffer n) (offset size : Nat) : Option (List UInt8) :=
  if offset + size ≤ n then some (readAt b.bytes offset size) else none

end Buffer

-- ---------------------------------------------------------------------------
-- The calls
-- ---------------------------------------------------------------------------

inductive Checked
  /-- `lseek(fd, offset, SEEK_SET)`. -/
  | seek (offset : Nat)
  | ftruncate (length : Nat)
  | close
  | «open»
  /-- A shared mapping of the file, of which there is one at a time. -/
  | mmap (writable : Bool) (length offset : Nat)
  | msync (length : Nat) (invalidate : Bool)
  | munmap (length : Nat)

inductive Call
  | random
  | checked (call : Checked)
  /-- `lseek(fd, 0, SEEK_END)`. -/
  | seekEnd
  | fstat
  | read (size : Nat)
  | write (data : List UInt8)
  /-- Bytes read through the mapping, from a place in it on. -/
  | load (start size : Nat)
  | store (start : Nat) (data : List UInt8)
  /-- Calls on the file `good_buf` is saved in after a failure. -/
  | saveSeekEnd
  | saveSeek
  | saveWrite (data : List UInt8)
  | saveClose

/-- `false` and `none` are a return value of -1. -/
abbrev Call.Reply : Call → Type
  | .random => Nat
  | .checked _ => Bool
  | .seekEnd | .fstat | .write _ | .saveSeekEnd => Option Nat
  | .read _ => Option (List UInt8)
  | .load _ size => Buffer size
  | .store .. | .saveSeek | .saveWrite _ | .saveClose => Unit

abbrev fsxSig : Sig := ⟨Call, Call.Reply⟩

-- ---------------------------------------------------------------------------
-- Settings and state
-- ---------------------------------------------------------------------------

/-- The options, with what `main` checks of them, in sizes an `int` can hold. -/
structure Settings where
  maxfilelen : Nat
  maxoplen : Nat
  readbdy : Nat := 1
  writebdy : Nat := 1
  truncbdy : Nat := 1
  smallTruncates : Bool := false
  lite : Bool := false
  sizechecks : Bool := true
  randomoplen : Bool := true
  mappedWrites : Bool := true
  mappedReads : Bool := true
  mappedMsync : Bool := true
  closeprob : Nat := 0
  invlprob : Nat := 0
  simulatedopcount : Nat := 0
  /-- The binary logarithm of the page size. -/
  pageShift : Nat := 12
  maxfilelen_pos : 0 < maxfilelen
  sizes : maxfilelen < 2 ^ 31 ∧ maxoplen + 1 < 2 ^ 31
  bdy_pos : 0 < readbdy ∧ 0 < writebdy ∧ 0 < truncbdy

def Settings.pageSize (c : Settings) : Nat := 2 ^ c.pageShift

def LOGSIZE : Nat := 1000

instance : NeZero LOGSIZE := ⟨by decide⟩

inductive Operation
  | read | write | truncate | closeopen | mapread | mapwrite | skipped | invalidate
  deriving DecidableEq, Repr

/-- `OP_READ` to `OP_INVALIDATE`. -/
def Operation.code : Operation → Nat
  | .read => 1
  | .write => 2
  | .truncate => 3
  | .closeopen => 4
  | .mapread => 5
  | .mapwrite => 6
  | .skipped => 7
  | .invalidate => 8

structure LogEntry where
  operation : Operation
  args : Nat × Nat × Nat := (0, 0, 0)
  deriving DecidableEq, Repr

structure State (c : Settings) where
  fileSize : Nat
  testcalls : Nat := 0
  goodBuf : Buffer c.maxfilelen
  originalBuf : Buffer c.maxfilelen
  oplog : Ring LogEntry LOGSIZE
  closeopen : Bool := false
  invl : Bool := false

/-- An exit with a nonzero status, and the log if it was dumped: the entries with
their operation numbers, which closes and invalidations do not have. -/
structure Failure where
  status : Nat
  log : List (Option Nat × LogEntry) := []

variable (c : Settings)

def Op (α : Type) := State c → Prog fsxSig (Except Failure (α × State c))

variable {c} {α β : Type}

instance : Monad (Op c) where
  pure a st := .done (.ok (a, st))
  bind x f st := (x st).andThen fun r => f r.1 r.2

def ask (call : Call) : Op c (fsxSig.Reply call) := fun st => .call call fun x => .done (.ok (x, st))

def get : Op c (State c) := fun st => .done (.ok (st, st))

def set (st : State c) : Op c Unit := fun _ => .done (.ok ((), st))

def when_ (b : Bool) (f : Op c Unit) : Op c Unit := if b then f else pure ()

def exit (status : Nat) : Op c α := fun _ => .done (.error { status })

def inside : Option α → Op c α
  | some a => fun st => .done (.ok (a, st))
  | none => fun _ => .stuck

-- ---------------------------------------------------------------------------
-- The log
-- ---------------------------------------------------------------------------

def State.doLog4 (st : State c) (entry : LogEntry) : State c :=
  { st with oplog := st.oplog.push entry }

def State.log4 (st : State c) (operation : Operation) (arg0 arg1 arg2 : Nat) : State c :=
  let st := st.doLog4 { operation, args := (arg0, arg1, arg2) }
  let st := if st.closeopen then st.doLog4 { operation := .closeopen } else st
  if st.invl then st.doLog4 { operation := .invalidate } else st

/-- A line of its own in the dump, for what went along with an operation. -/
def LogEntry.marks (lp : LogEntry) : Bool :=
  lp.operation = .closeopen ∨ lp.operation = .invalidate

def numbered : Nat → List LogEntry → List (Option Nat × LogEntry)
  | _, [] => []
  | opnum, lp :: log =>
    if lp.marks then (none, lp) :: numbered opnum log
    else (some opnum, lp) :: numbered (opnum + 1) log

def logdump (log : Ring LogEntry LOGSIZE) : List (Option Nat × LogEntry) :=
  let i := if log.total < LOGSIZE then 0 else log.next.val
  numbered (i + 1 + log.total / LOGSIZE * LOGSIZE) log.oldest

theorem numbered_entries (opnum : Nat) (log : List LogEntry) :
    (numbered opnum log).map (·.2) = log := by
  induction log generalizing opnum with
  | nil => rfl
  | cons lp log ih =>
    unfold numbered
    split
    · simp [ih]
    · simp [ih]

theorem numbered_marks (opnum : Nat) (log : List LogEntry) :
    ∀ line ∈ numbered opnum log, line.1 = none ↔ line.2.marks := by
  induction log generalizing opnum with
  | nil => simp [numbered]
  | cons lp log ih =>
    unfold numbered
    split
    · rename_i hmarks
      simpa [hmarks] using ih opnum
    · rename_i hmarks
      simpa [hmarks] using ih (opnum + 1)

theorem numbered_numbers (opnum : Nat) (log : List LogEntry) :
    (numbered opnum log).filterMap (·.1) = List.range' opnum (log.countP fun lp => !lp.marks) := by
  induction log generalizing opnum with
  | nil => rfl
  | cons lp log ih =>
    unfold numbered
    split
    · rename_i hmarks
      simp [ih, hmarks]
    · rename_i hmarks
      simp [ih, hmarks, List.range'_succ]

-- ---------------------------------------------------------------------------
-- Failures
-- ---------------------------------------------------------------------------

def saveBuffer (st : State c) : Prog fsxSig Unit :=
  if st.fileSize = 0 then return ()
  else if c.lite then do
    let sizeBySeek : Option Nat ← Prog.ask (S := fsxSig) .saveSeekEnd
    let _ ← Prog.ask (S := fsxSig) .saveSeek
    Prog.ask (S := fsxSig) (.saveWrite (st.goodBuf.bytes.take
      (min st.fileSize (sizeBySeek.getD st.fileSize))))
  else do
    let _ ← Prog.ask (S := fsxSig) .saveSeek
    Prog.ask (S := fsxSig) (.saveWrite (st.goodBuf.bytes.take st.fileSize))

def reportFailure (status : Nat) : Op c α := fun st => do
  saveBuffer st
  let _ ← Prog.ask (S := fsxSig) .saveClose
  return .error { status, log := logdump st.oplog }

def expect (status : Nat) (ok : Bool) : Op c Unit :=
  if ok then pure () else reportFailure status

def check (status : Nat) (call : Checked) : Op c Unit := do
  let ok : Bool ← ask (.checked call)
  expect status ok

-- ---------------------------------------------------------------------------
-- Checks
-- ---------------------------------------------------------------------------

def inTemp (c : Settings) (size : Nat) : Option Unit := if size ≤ c.maxoplen then some () else none

def agreeing : List UInt8 → List UInt8 → Nat
  | a :: as, b :: bs => if a = b then agreeing as bs + 1 else 0
  | _, _ => 0

/-- `temp` is what `temp_buf` holds. -/
def checkBuffers (offset : Nat) (temp : List UInt8) : Op c Unit := do
  let st ← get
  let good ← inside (st.goodBuf.read? offset temp.length)
  if good = temp then pure ()
  else do
    -- `short_at` takes the byte after the first wrong one as well, in either buffer
    inside (inTemp c (agreeing good temp + 2))
    let _ ← inside (st.goodBuf.get? (offset + agreeing good temp + 1))
    reportFailure 110

def checkSize : Op c Unit := do
  let st ← get
  let size : Option Nat ← ask .fstat
  let sizeBySeek : Option Nat ← ask .seekEnd
  expect 120 (size = some st.fileSize ∧ sizeBySeek = some st.fileSize)

def checkEofpage (offset size : Nat) : Op c Unit := do
  let st ← get
  if offset + size ≤ st.fileSize - st.fileSize % c.pageSize then pure ()
  else do
    let last := offset % c.pageSize + size
    let lastPage := last - last % c.pageSize
    let shouldBeZero := lastPage + st.fileSize % c.pageSize
    let loaded ← ask (.load shouldBeZero (lastPage + c.pageSize - shouldBeZero))
    match loaded.bytes.dropWhile (· = 0) with
    | [] => pure ()
    | _ :: rest => do
      let _ ← inside rest.head?
      reportFailure 205

-- ---------------------------------------------------------------------------
-- Operations
-- ---------------------------------------------------------------------------

def logged (operation : Operation) (arg0 arg1 arg2 : Nat) : Op c Unit := do
  let st ← get
  set (st.log4 operation arg0 arg1 arg2)

def unlessSimulated (f : Op c Unit) : Op c Unit := do
  let st ← get
  if st.testcalls ≤ c.simulatedopcount then pure () else f

def readBack (offset size : Nat) : Op c Unit := do
  check 140 (.seek offset)
  inside (inTemp c size)
  let ret ← ask (.read size)
  match ret with
  | none => reportFailure 141
  | some temp => do
    expect 141 (temp.length = size)
    checkBuffers offset temp

def doread (offset size : Nat) : Op c Unit := do
  let offset := offset - offset % c.readbdy
  let st ← get
  if size = 0 ∨ size + offset > st.fileSize then logged .skipped Operation.read.code offset size
  else do
    logged .read offset size 0
    unlessSimulated (readBack offset size)

def mapBack (offset size : Nat) : Op c Unit := do
  let pgOffset := offset % c.pageSize
  let mapSize := pgOffset + size
  check 190 (.mmap false mapSize (offset - pgOffset))
  inside (inTemp c size)
  let temp ← ask (.load pgOffset size)
  checkEofpage offset size
  check 191 (.munmap mapSize)
  checkBuffers offset temp.bytes

def domapread (offset size : Nat) : Op c Unit := do
  let offset := offset - offset % c.readbdy
  let st ← get
  if size = 0 ∨ size + offset > st.fileSize then logged .skipped Operation.mapread.code offset size
  else do
    logged .mapread offset size 0
    unlessSimulated (mapBack offset size)

def datum (testcalls : Nat) {n : Nat} (original : Buffer n) (offset : Nat) : Option UInt8 :=
  let v := (testcalls % 256).toUInt8
  if offset % 2 = 1 then (original.get? offset).map (v + ·) else some v

def gendata (testcalls : Nat) {n : Nat} (original : Buffer n) :
    Buffer n → Nat → Nat → Option (Buffer n)
  | good, _, 0 => some good
  | good, offset, size + 1 => (datum testcalls original offset).bind fun v =>
    (good.put? offset v).bind fun good => gendata testcalls original good (offset + 1) size

def generate (status offset size : Nat) : Op c Unit := do
  let st ← get
  let good ← inside (gendata st.testcalls st.originalBuf st.goodBuf offset size)
  if st.fileSize < offset + size then do
    let good ← inside (if st.fileSize < offset then good.clear? st.fileSize (offset - st.fileSize)
      else some good)
    set { st with goodBuf := good, fileSize := offset + size }
    if c.lite then reportFailure status else pure ()
  else set { st with goodBuf := good }

def writeOut (offset size : Nat) : Op c Unit := do
  let st ← get
  check 150 (.seek offset)
  let data ← inside (st.goodBuf.read? offset size)
  let ret : Option Nat ← ask (.write data)
  expect 151 (ret = some size)

def dowrite (offset size : Nat) : Op c Unit := do
  let offset := offset - offset % c.writebdy
  if size = 0 then logged .skipped Operation.write.code offset size
  else do
    let st ← get
    logged .write offset size st.fileSize
    generate 149 offset size
    unlessSimulated (writeOut offset size)

def mapStore (offset size : Nat) : Op c Unit := do
  let st ← get
  let pgOffset := offset % c.pageSize
  let mapSize := pgOffset + size
  check 202 (.mmap true mapSize (offset - pgOffset))
  let data ← inside (st.goodBuf.read? offset size)
  ask (.store pgOffset data)
  when_ c.mappedMsync (check 203 (.msync mapSize false))
  checkEofpage offset size
  check 204 (.munmap mapSize)

def mapOut (curFilesize offset size : Nat) : Op c Unit := do
  let st ← get
  if st.fileSize > curFilesize then do
    let ok : Bool ← ask (.checked (.ftruncate st.fileSize))
    if ok then mapStore offset size else exit 201
  else mapStore offset size

def domapwrite (offset size : Nat) : Op c Unit := do
  let offset := offset - offset % c.writebdy
  if size = 0 then logged .skipped Operation.mapwrite.code offset size
  else do
    let st ← get
    logged .mapwrite offset size 0
    generate 200 offset size
    unlessSimulated (mapOut st.fileSize offset size)

def dotruncate (size : Nat) : Op c Unit := do
  let size := size - size % c.truncbdy
  let st ← get
  let st := st.log4 .truncate size st.fileSize 0
  let good ← inside (if size > st.fileSize then st.goodBuf.clear? st.fileSize (size - st.fileSize)
    else some st.goodBuf)
  set { st with goodBuf := good, fileSize := size }
  unlessSimulated do
    check 160 (.ftruncate size)

def writefileimage : Op c Unit := do
  let st ← get
  check 171 (.seek 0)
  let data ← inside (st.goodBuf.read? 0 st.fileSize)
  let ret : Option Nat ← ask (.write data)
  expect 172 (ret = some st.fileSize)
  when_ (!c.lite) (check 173 (.ftruncate st.fileSize))

def docloseopen : Op c Unit := unlessSimulated do
  check 180 .close
  check 181 .«open»

def doinvl : Op c Unit := do
  let st ← get
  if st.fileSize = 0 then pure ()
  else unlessSimulated do
    check 205 (.mmap true st.fileSize 0)
    check 206 (.msync 0 true)
    check 207 (.munmap st.fileSize)

-- ---------------------------------------------------------------------------
-- A test
-- ---------------------------------------------------------------------------

def begin_ (rv : Nat) : Op c Unit := do
  let st ← get
  when_ (c.simulatedopcount > 0 ∧ st.testcalls = c.simulatedopcount) writefileimage
  set { st with
    testcalls := st.testcalls + 1
    closeopen := if c.closeprob = 0 then st.closeopen else rv / 8 < 2 ^ 28 / c.closeprob
    invl := if c.invlprob = 0 then st.invl else rv / 8 < 2 ^ 28 / c.invlprob }

def opSize : Op c Nat :=
  if c.randomoplen then do
    let r : Nat ← ask .random
    return r % (c.maxoplen + 1)
  else return c.maxoplen

def writeAtRandom (mapped : Bool) (size : Nat) : Op c Unit := do
  let r : Nat ← ask .random
  let offset := r % c.maxfilelen
  let size := if offset + size > c.maxfilelen then c.maxfilelen - offset else size
  if mapped then domapwrite offset size else dowrite offset size

def readAtRandom (mapped : Bool) (size : Nat) : Op c Unit := do
  let r : Nat ← ask .random
  let st ← get
  let offset := if st.fileSize = 0 then 0 else r % st.fileSize
  let size := if offset + size > st.fileSize then st.fileSize - offset else size
  if mapped then domapread offset size else doread offset size

def perform (op : Nat) : Op c Unit :=
  if ¬c.lite ∧ op = 3 ∧ ¬c.smallTruncates then do
    let r : Nat ← ask .random
    dotruncate (r % c.maxfilelen)
  else do
    let size ← opSize
    if ¬c.lite ∧ op = 3 then dotruncate size
    else if op = 1 then writeAtRandom false size
    else if op = (if c.lite then 3 else 4) then writeAtRandom true size
    else readAtRandom (op ≠ 0) size

def finish : Op c Unit := do
  when_ c.sizechecks (unlessSimulated checkSize)
  let st ← get
  when_ st.invl doinvl
  when_ st.closeopen docloseopen

def test : Op c Unit := do
  let rv : Nat ← ask .random
  let op := rv % (3 + (!c.lite).toNat + c.mappedWrites.toNat)
  begin_ rv
  perform (if op = 2 ∧ ¬c.mappedReads then 0 else op)
  finish

/-- `while (numops == -1 || numops--) test();`, for a number of times. -/
def tests : Nat → Op c Unit
  | 0 => pure ()
  | n + 1 => do
    test
    tests n

def mainLoop (numops : Nat) : Op c Unit := do
  tests numops
  check 99 .close

def start (c : Settings) (originalBuf : Buffer c.maxfilelen) : State c where
  fileSize := if c.lite then c.maxfilelen else 0
  goodBuf := Buffer.zeros c.maxfilelen
  originalBuf
  -- no slot is looked at before it has been written
  oplog := Ring.filled { operation := .skipped }

theorem foldl_doLog4 (entries : List LogEntry) (st : State c) :
    (entries.foldl State.doLog4 st).oplog = entries.foldl Ring.push st.oplog := by
  induction entries generalizing st with
  | nil => rfl
  | cons entry entries ih => exact ih (st.doLog4 entry)

/-- The dump has the last `LOGSIZE` entries of all that have been logged, and
numbers on those that are operations. They go from 1 on as long as nothing has been
lost, and then from one more than the number of all entries. -/
theorem logdump_exact (originalBuf : Buffer c.maxfilelen) (entries : List LogEntry) :
    let last := entries.drop (entries.length - LOGSIZE)
    let dump := logdump (entries.foldl State.doLog4 (start c originalBuf)).oplog
    dump.map (·.2) = last ∧ (∀ line ∈ dump, line.1 = none ↔ line.2.marks) ∧
      dump.filterMap (·.1) = List.range' (if entries.length < LOGSIZE then 1 else entries.length + 1)
        (last.countP fun lp => !lp.marks) := by
  have hgiven := (Ring.given_filled (n := LOGSIZE) { operation := .skipped }).pushes entries
  rw [List.nil_append] at hgiven
  have hlog := foldl_doLog4 entries (start c originalBuf)
  have hfirst : (if entries.length < LOGSIZE then 0 else entries.length % LOGSIZE) + 1 +
      entries.length / LOGSIZE * LOGSIZE =
        if entries.length < LOGSIZE then 1 else entries.length + 1 := by
    split
    · rename_i hlt
      simp [Nat.div_eq_of_lt hlt]
    · have h := Nat.mod_add_div' entries.length LOGSIZE
      omega
  dsimp only
  rw [hlog, start, logdump, Ring.oldest_eq, hgiven.total, hgiven.next, Fin.val_ofNat, hfirst]
  exact ⟨numbered_entries .., numbered_marks _ _, numbered_numbers ..⟩

end UnreliableFS.Fsx
