import Mathlib.Data.List.TakeWhile
import UnreliableFS.Fsx

/-!
# What the exerciser finds

The file as it should be: its bytes, the offset of the descriptor and the mapping.
A run of tests goes on to its end exactly if every reply has been that file's, as
far as the code looks at it, whatever the file system does.
-/

namespace UnreliableFS.Fsx

open Interaction Extents Rings

/-- `map` is whether the mapping is writable, its length and its offset. -/
structure File where
  content : List UInt8
  pos : Option Nat
  map : Option (Bool × Nat × Nat) := none

namespace File

variable (c : Settings)

def pageEnd (n : Nat) : Nat := (n + c.pageSize - 1) / c.pageSize * c.pageSize

def mayCheck (r : File) : Checked → Prop
  | .seek _ | .ftruncate _ => r.pos.isSome
  | .close => r.pos.isSome ∧ r.map = none
  | .open => r.pos = none
  | .mmap _ length offset => r.pos.isSome ∧ r.map = none ∧ 0 < length ∧ offset % c.pageSize = 0
  | .msync .. => r.map.isSome
  | .munmap length => ∃ w offset, r.map = some (w, length, offset)

/-- A load stays within the pages of the mapping and of the file, a store within the
mapping and the file. -/
def may (r : File) : Call → Prop
  | .random => True
  | .checked call => r.mayCheck c call
  | .seekEnd | .fstat | .read _ | .write _ => r.pos.isSome
  | .load start size => ∃ w length offset, r.map = some (w, length, offset) ∧
      start + size ≤ pageEnd c length ∧ offset + start + size ≤ pageEnd c r.content.length
  | .store start data => ∃ length offset, r.map = some (true, length, offset) ∧
      start + data.length ≤ length ∧ offset + start + data.length ≤ r.content.length
  | .saveSeekEnd | .saveSeek | .saveWrite _ | .saveClose => False

/-- The bytes of a file from an offset on, and zeros after its end. -/
def padded (content : List UInt8) (offset size : Nat) : List UInt8 :=
  readAt (resize 0 content (offset + size)) offset size

def replies (r : File) : (call : Call) → Call.Reply call → Prop
  | .checked _, ok => ok = true
  | .seekEnd, size | .fstat, size => size = some r.content.length
  | .read size, ret => ∃ pos, r.pos = some pos ∧ ret = some (readAt r.content pos size)
  | .write data, ret => ret = some data.length
  | .load start size, loaded => ∃ w length offset, r.map = some (w, length, offset) ∧
      loaded.bytes = padded r.content (offset + start) size
  | _, _ => True

/-- The byte after a wrong one is inside the buffers that are compared. -/
def Shown (offset i : Nat) : Prop := i + 2 ≤ c.maxoplen ∧ offset + i + 1 < c.maxfilelen

/-- After wrong bytes of a mapping the rest of its last page is looked at, it is given
up, and then the bytes are compared. -/
def lost (shown : Prop) : List (Answer fsxSig) → Prop
  | ⟨.load _ size, rest⟩ :: answers =>
    let wrong := agreeing (List.replicate size 0) rest.bytes
    if wrong < size then wrong + 1 = size else lost shown answers
  | ⟨.checked _, ok⟩ :: _ => ok = true ∧ ¬shown
  | _ => False

/-- A report of wrong bytes shows the one after the first as well, and is lost if there
is none. -/
def loses (r : File) : (call : Call) → Call.Reply call → List (Answer fsxSig) → Prop
  | .read size, ret, _ => ∃ pos temp, r.pos = some pos ∧ ret = some temp ∧ temp.length = size ∧
      ¬Shown c pos (agreeing (readAt r.content pos size) temp)
  | .load start size, loaded, answers => ∃ w length offset, r.map = some (w, length, offset) ∧
      let wrong := agreeing (padded r.content (offset + start) size) loaded.bytes
      if offset + start < r.content.length then lost (Shown c (offset + start) wrong) answers
      else wrong + 1 = size
  | _, _, _ => False

def next (r : File) : (call : Call) → Call.Reply call → File
  | .checked (.seek offset), _ => { r with pos := some offset }
  | .checked (.ftruncate length), _ => { r with content := resize 0 r.content length }
  | .checked .close, _ => { r with pos := none }
  | .checked .open, _ => { r with pos := some 0 }
  | .checked (.mmap writable length offset), _ => { r with map := some (writable, length, offset) }
  | .checked (.munmap _), _ => { r with map := none }
  | .seekEnd, _ => { r with pos := some r.content.length }
  | .read _, ret => { r with pos := r.pos.map (· + (ret.elim 0 List.length)) }
  | .write data, _ => { r with
      content := writeAt 0 r.content (r.pos.getD 0) data
      pos := r.pos.map (· + data.length) }
  | .store start data, _ => { r with
      content := writeAt 0 r.content ((r.map.map (·.2.2)).getD 0 + start) data }
  | _, _ => r

end File

variable {c : Settings}

def reference (c : Settings) : Reference fsxSig File where
  allowed := File.may c
  expects := File.replies
  loses := File.loses c
  next := File.next

-- ---------------------------------------------------------------------------
-- A right file
-- ---------------------------------------------------------------------------

namespace File

theorem length_padded (content : List UInt8) (offset size : Nat) :
    (padded content offset size).length = size := by
  simp [padded, readAt, length_resize]

def reply (r : File) (draws : List Nat) : (call : Call) → Call.Reply call
  | .random => draws.headD 0
  | .checked _ => true
  | .seekEnd | .fstat => some r.content.length
  | .read size => some (readAt r.content (r.pos.getD 0) size)
  | .write data => some data.length
  | .load start size => ⟨padded r.content ((r.map.map (·.2.2)).getD 0 + start) size, length_padded ..⟩
  | .saveSeekEnd => none
  | .store .. | .saveSeek | .saveWrite _ | .saveClose => ()

end File

def serving : Handler fsxSig (File × List Nat) := fun call s =>
  let reply := s.1.reply s.2 call
  (reply, s.1.next call reply, match call with | .random => s.2.tail | _ => s.2)

theorem serving_honest : (reference c).Honest serving fun s r => s.1 = r := by
  rintro call s _ rfl hallowed
  refine ⟨?_, rfl⟩
  cases call with
  | read size =>
    obtain ⟨pos, hpos⟩ := Option.isSome_iff_exists.mp hallowed
    exact ⟨pos, hpos, by simp [serving, File.reply, hpos]⟩
  | load start size =>
    obtain ⟨w, length, offset, hmap, -⟩ := hallowed
    exact ⟨w, length, offset, hmap, by simp [serving, File.reply, hmap]⟩
  | random | store | saveSeekEnd | saveSeek | saveWrite | saveClose => trivial
  | checked | seekEnd | fstat | write => rfl

-- ---------------------------------------------------------------------------
-- Running the code
-- ---------------------------------------------------------------------------

variable {α β : Type} {st : State c}

@[simp] theorem pure_apply (a : α) : (pure a : Op c α) st = .done (.ok (a, st)) := rfl
@[simp] theorem bind_apply (x : Op c α) (f : α → Op c β) :
    (x >>= f) st = (x st).andThen fun r => f r.1 r.2 := rfl
@[simp] theorem ask_apply (call : Call) :
    (ask call : Op c _) st = .call call fun x => .done (.ok (x, st)) := rfl
@[simp] theorem get_apply : (get : Op c _) st = .done (.ok (st, st)) := rfl
@[simp] theorem set_apply (st' : State c) : set st' st = .done (.ok ((), st')) := rfl
@[simp] theorem inside_some (a : α) : (inside (some a) : Op c α) st = .done (.ok (a, st)) := rfl
@[simp] theorem exit_apply (status : Nat) : (exit status : Op c α) st = .done (.error { status }) := rfl
@[simp] theorem logged_apply (operation : Operation) (arg0 arg1 arg2 : Nat) :
    logged operation arg0 arg1 arg2 st = .done (.ok ((), st.log4 operation arg0 arg1 arg2)) := rfl

def Judges (x : Op c α) (st : State c) (r : File) (Q : α → State c → File → Prop) : Prop :=
  (x st).Judges (reference c) (fun res r' => Q res.1 res.2 r') r

section

variable {x : Op c α} {f : α → Op c β} {r : File} {Q : β → State c → File → Prop}
  {D : List (Answer fsxSig) → Prop}

theorem judges_bind (h : Judges x st r fun a st' r' => Judges (f a) st' r' Q) :
    Judges (x >>= f) st r Q := Prog.Judges.andThen h

theorem Judges.mono {P Q : α → State c → File → Prop} (h : Judges x st r P)
    (hQ : ∀ a st' r', P a st' r' → Q a st' r') : Judges x st r Q :=
  Prog.Judges.mono h fun res r' => hQ res.1 res.2 r'

@[simp] theorem judges_pure {Q : α → State c → File → Prop} (a : α) :
    Judges (pure a) st r Q ↔ Q a st r := .rfl
@[simp] theorem judges_get {Q : State c → State c → File → Prop} :
    Judges get st r Q ↔ Q st st r := .rfl
@[simp] theorem judges_set {Q : Unit → State c → File → Prop} (st' : State c) :
    Judges (set st') st r Q ↔ Q () st' r := .rfl
@[simp] theorem judges_logged {Q : Unit → State c → File → Prop} (operation : Operation)
    (arg0 arg1 arg2 : Nat) : Judges (logged operation arg0 arg1 arg2) st r Q ↔
      Q () (st.log4 operation arg0 arg1 arg2) r := .rfl
@[simp] theorem judges_inside {Q : α → State c → File → Prop} (a : α) :
    Judges (inside (some a)) st r Q ↔ Q a st r := .rfl

theorem fails_reportFailure (status : Nat) (hD : ∀ answers, ¬D answers) :
    (reportFailure status st : Prog fsxSig (Except Failure (α × State c))).Fails D := by
  unfold reportFailure saveBuffer
  split
  · exact fun _ => hD _
  · split
    · exact fun _ _ _ _ => hD _
    · exact fun _ _ _ => hD _

theorem judges_expect {status : Nat} {ok : Bool} {Q : Unit → State c → File → Prop} (hok : ok = true)
    (h : Q () st r) : Judges (expect status ok) st r Q := by
  subst hok
  exact h

theorem fails_expect {status : Nat} {ok : Bool} (hok : ok = false) (hD : ∀ answers, ¬D answers) :
    (expect status ok st : Prog fsxSig _).Fails D := by
  subst hok
  exact fails_reportFailure status hD

theorem judges_check {status : Nat} {call : Checked} {Q : Unit → State c → File → Prop}
    (hmay : r.mayCheck c call) (h : Q () st (r.next (.checked call) true)) :
    Judges (check status call) st r Q := by
  refine ⟨hmay, fun ok => ⟨?_, ?_⟩⟩
  · rintro rfl
    exact h
  · intro hok
    obtain rfl : ok = false := by simpa [reference, File.replies] using hok
    exact fails_reportFailure status fun _ => id

theorem judges_ask {call : Call} {f : fsxSig.Reply call → Op c β} (hmay : r.may c call)
    (hgood : ∀ x, r.replies call x → Judges (f x) st (r.next call x) Q)
    (hbad : ∀ x, ¬r.replies call x → (f x st).Fails (r.loses c call x)) :
    Judges (ask call >>= f) st r Q :=
  ⟨hmay, fun x => ⟨hgood x, hbad x⟩⟩

theorem leads_bind {P : β × State c → (List (Answer fsxSig) → Prop) → Prop}
    (h : (x st).Leads D fun res D' => (f res.1 res.2).Leads D' P) : ((x >>= f) st).Leads D P :=
  Prog.Leads.andThen h

theorem fails_bind (h : (x st).Fails D) (f : α → Op c β) : ((x >>= f) st).Fails D :=
  leads_bind (h.mono fun _ _ => False.elim)

theorem leads_inside {o : Option α} {P : α × State c → (List (Answer fsxSig) → Prop) → Prop}
    (hnone : o = none → D []) (hsome : ∀ a, o = some a → P (a, st) D) :
    (inside o st).Leads D P := by
  cases o with
  | none => exact hnone rfl
  | some a => exact hsome a rfl

theorem leads_check {status : Nat} {call : Checked}
    {P : Unit × State c → (List (Answer fsxSig) → Prop) → Prop}
    (hbad : ∀ answers, ¬D (⟨.checked call, false⟩ :: answers))
    (hgood : P ((), st) fun answers => D (⟨.checked call, true⟩ :: answers)) :
    (check status call st).Leads D P := by
  intro ok
  cases ok with
  | false => exact (fails_reportFailure status hbad).mono fun _ _ => False.elim
  | true => exact hgood

theorem judges_when {b : Bool} {f : Op c Unit} {Q : Unit → State c → File → Prop}
    (hf : b = true → Judges f st r Q) (hskip : b = false → Q () st r) :
    Judges (when_ b f) st r Q := by
  cases b with
  | false => exact hskip rfl
  | true => exact hf rfl

theorem judges_unlessSimulated {f : Op c Unit} {Q : Unit → State c → File → Prop}
    (hsim : st.testcalls ≤ c.simulatedopcount → Q () st r)
    (hreal : c.simulatedopcount < st.testcalls → Judges f st r Q) :
    Judges (unlessSimulated f) st r Q := by
  refine judges_bind ?_
  rw [judges_get]
  split
  · exact hsim ‹_›
  · exact hreal (by omega)

end

-- ---------------------------------------------------------------------------
-- Buffers
-- ---------------------------------------------------------------------------

theorem ext_getD {a b : List UInt8} (hlen : a.length = b.length)
    (h : ∀ i < a.length, a.getD i 0 = b.getD i 0) : a = b :=
  List.ext_getElem hlen fun i h₁ h₂ => by simpa [h₁, h₂] using h i h₁

theorem readAt_take {good : List UInt8} {offset size fileSize : Nat}
    (h : offset + size ≤ fileSize) :
    readAt (good.take fileSize) offset size = readAt good offset size := by
  simp only [readAt, List.drop_take, List.take_take]
  congr 1
  omega

namespace Buffer

variable {n : Nat} {b : Buffer n} {offset size : Nat}

theorem read?_eq (h : offset + size ≤ n) : b.read? offset size = some (readAt b.bytes offset size) :=
  if_pos h

theorem put?_eq (h : offset < n) (v : UInt8) : ∃ b', b.put? offset v = some b' ∧
    ∀ i, b'.bytes.getD i 0 = if i = offset then v else b.bytes.getD i 0 := by
  refine ⟨_, if_pos h, fun i => ?_⟩
  have hlen : offset < b.bytes.length := by rwa [b.length_eq]
  simp only [List.getD_eq_getElem?_getD, List.getElem?_set]
  grind

theorem clear?_eq (h : offset + size ≤ n) : ∃ b', b.clear? offset size = some b' ∧
    ∀ i, b'.bytes.getD i 0 =
      if offset ≤ i ∧ i < offset + size then 0 else b.bytes.getD i 0 := by
  induction size generalizing b offset with
  | zero => exact ⟨b, rfl, fun i => (if_neg (by omega)).symm⟩
  | succ size ih =>
    obtain ⟨b₁, hput, h₁⟩ := @put?_eq n b offset (by omega) 0
    obtain ⟨b₂, hclear, h₂⟩ := @ih b₁ (offset + 1) (by omega)
    refine ⟨b₂, by simp [clear?, hput, hclear], fun i => ?_⟩
    rw [h₂, h₁]
    grind

end Buffer

theorem datum_eq {n testcalls : Nat} {original : Buffer n} {offset : Nat} (h : offset < n) :
    ∃ v, datum testcalls original offset = some v := by
  have hlt : offset < original.bytes.length := by rwa [original.length_eq]
  unfold datum
  split
  · exact ⟨_, by rw [Buffer.get?, List.getElem?_eq_getElem hlt]; rfl⟩
  · exact ⟨_, rfl⟩

theorem gendata_eq {n testcalls : Nat} {original good : Buffer n} {offset size : Nat}
    (h : offset + size ≤ n) : ∃ good', gendata testcalls original good offset size = some good' ∧
      ∀ i, ¬(offset ≤ i ∧ i < offset + size) → good'.bytes.getD i 0 = good.bytes.getD i 0 := by
  induction size generalizing good offset with
  | zero => exact ⟨good, rfl, fun _ _ => rfl⟩
  | succ size ih =>
    obtain ⟨v, hv⟩ := @datum_eq n testcalls original offset (by omega)
    obtain ⟨b₁, hput, h₁⟩ := @Buffer.put?_eq n good offset (by omega) v
    obtain ⟨b₂, hgen, h₂⟩ := @ih b₁ (offset + 1) (by omega)
    refine ⟨b₂, by simp [gendata, hv, hput, hgen], fun i hi => ?_⟩
    rw [h₂ i (by omega), h₁, if_neg (by omega)]

theorem getD_take (l : List UInt8) (k i : Nat) :
    (l.take k).getD i 0 = if i < k then l.getD i 0 else 0 := by
  simp only [List.getD_eq_getElem?_getD, List.getElem?_take]
  split
  · rfl
  · rfl

theorem getD_readAt (l : List UInt8) (offset size i : Nat) :
    (readAt l offset size).getD i 0 = if i < size then l.getD (offset + i) 0 else 0 := by
  rw [readAt, getD_take]
  simp [List.getElem?_drop]

theorem writeAt_image {n : Nat} {good good' : Buffer n} {fileSize offset size : Nat}
    (hsize : 0 < size) (hfit : offset + size ≤ n) (hfile : fileSize ≤ n)
    (hgap : ∀ i, fileSize ≤ i → i < offset → good'.bytes.getD i 0 = 0)
    (hsame : ∀ i < fileSize, ¬(offset ≤ i ∧ i < offset + size) →
      good'.bytes.getD i 0 = good.bytes.getD i 0) :
    writeAt 0 (good.bytes.take fileSize) offset (readAt good'.bytes offset size) =
      good'.bytes.take (max fileSize (offset + size)) := by
  have hg := good.length_eq
  have hg' := good'.length_eq
  have hlen : (readAt good'.bytes offset size).length = size := by
    simp only [readAt, List.length_take, List.length_drop]
    omega
  have hne : readAt good'.bytes offset size ≠ [] := List.ne_nil_of_length_pos (by omega)
  apply ext_getD
  · rw [length_writeAt, if_neg hne, hlen, List.length_take, List.length_take]
    omega
  · intro i _
    rw [getD_writeAt, hlen, getD_readAt, getD_take, getD_take]
    by_cases hi : offset ≤ i ∧ i < offset + size
    · have heq : offset + (i - offset) = i := by omega
      rw [if_pos hi, if_pos (by omega), if_pos (by omega), heq]
    · rw [if_neg hi]
      grind

theorem resize_image {n : Nat} {good good' : Buffer n} {fileSize size : Nat}
    (hfit : size ≤ n) (hgap : ∀ i, fileSize ≤ i → i < size → good'.bytes.getD i 0 = 0)
    (hsame : ∀ i < fileSize, good'.bytes.getD i 0 = good.bytes.getD i 0) :
    resize 0 (good.bytes.take fileSize) size = good'.bytes.take size := by
  have hg' := good'.length_eq
  apply ext_getD
  · rw [length_resize, List.length_take]
    omega
  · intro i _
    rw [getD_resize, getD_take, getD_take]
    grind

-- ---------------------------------------------------------------------------
-- The invariant
-- ---------------------------------------------------------------------------

namespace State

variable (st : State c) (operation : Operation) (arg0 arg1 arg2 : Nat)

/-- What the file holds according to `good_buf`. -/
def image : List UInt8 := st.goodBuf.bytes.take st.fileSize

theorem log4_eq : ∃ oplog, st.log4 operation arg0 arg1 arg2 = { st with oplog } := by
  unfold log4
  dsimp only
  split
  · split
    · exact ⟨_, rfl⟩
    · exact ⟨_, rfl⟩
  · split
    · exact ⟨_, rfl⟩
    · exact ⟨_, rfl⟩

@[simp] theorem log4_testcalls : (st.log4 operation arg0 arg1 arg2).testcalls = st.testcalls := by
  obtain ⟨_, h⟩ := st.log4_eq operation arg0 arg1 arg2
  rw [h]

@[simp] theorem log4_fileSize : (st.log4 operation arg0 arg1 arg2).fileSize = st.fileSize := by
  obtain ⟨_, h⟩ := st.log4_eq operation arg0 arg1 arg2
  rw [h]

@[simp] theorem log4_goodBuf : (st.log4 operation arg0 arg1 arg2).goodBuf = st.goodBuf := by
  obtain ⟨_, h⟩ := st.log4_eq operation arg0 arg1 arg2
  rw [h]

end State

def blank (c : Settings) : List UInt8 := if c.lite then List.replicate c.maxfilelen 0 else []

structure Sized (st : State c) (r : File) : Prop where
  fits : st.fileSize ≤ c.maxfilelen
  lite : c.lite = true → st.fileSize = c.maxfilelen
  isOpen : r.pos.isSome
  unmapped : r.map = none

/-- The file holds what `good_buf` has, from the first operation on that is not only
simulated. -/
structure InStep (st : State c) (r : File) : Prop extends Sized st r where
  content : r.content = if c.simulatedopcount < st.testcalls then st.image else blank c

namespace InStep

variable {r : File}

theorem log4 (h : InStep st r) (operation : Operation) (arg0 arg1 arg2 : Nat) :
    InStep (st.log4 operation arg0 arg1 arg2) r := by
  obtain ⟨oplog, heq⟩ := st.log4_eq operation arg0 arg1 arg2
  rw [heq]
  exact ⟨⟨h.fits, h.lite, h.isOpen, h.unmapped⟩, h.content⟩

theorem image (h : InStep st r) (hreal : c.simulatedopcount < st.testcalls) :
    r.content = st.image := h.content.trans (if_pos hreal)

theorem length (h : InStep st r) (hreal : c.simulatedopcount < st.testcalls) :
    r.content.length = st.fileSize := by
  rw [h.image hreal, State.image, List.length_take, st.goodBuf.length_eq]
  exact min_eq_left h.fits

end InStep

def Kept (st : State c) (_ : Unit) (st' : State c) (r' : File) : Prop :=
  InStep st' r' ∧ st'.testcalls = st.testcalls

section

variable {r : File} {offset size : Nat} {U : Prop}

-- ---------------------------------------------------------------------------
-- Reads
-- ---------------------------------------------------------------------------

theorem read_good (h : InStep st r) (hreal : c.simulatedopcount < st.testcalls)
    (hin : offset + size ≤ st.fileSize) :
    readAt r.content offset size = readAt st.goodBuf.bytes offset size ∧
      (readAt r.content offset size).length = size ∧
        st.goodBuf.read? offset size = some (readAt r.content offset size) := by
  have hread : readAt r.content offset size = readAt st.goodBuf.bytes offset size := by
    rw [h.image hreal, State.image, readAt_take hin]
  have hfits := h.fits
  have hlen := h.length hreal
  refine ⟨hread, ?_, ?_⟩
  · simp only [readAt, List.length_take, List.length_drop]
    omega
  · rw [hread]
    exact Buffer.read?_eq (by omega)

theorem judges_checkBuffers {temp : List UInt8} {Q : Unit → State c → File → Prop}
    (hgood : st.goodBuf.read? offset temp.length = some temp) (hQ : Q () st r) :
    Judges (checkBuffers offset temp) st r Q := by
  refine judges_bind ?_
  rw [judges_get, hgood]
  refine judges_bind ?_
  rw [judges_inside, if_pos rfl]
  exact hQ

theorem fails_checkBuffers {temp good : List UInt8}
    (hgood : st.goodBuf.read? offset temp.length = some good) (hne : good ≠ temp)
    (hD : ∀ answers, D answers ↔ ¬File.Shown c offset (agreeing good temp)) :
    (checkBuffers offset temp st : Prog fsxSig _).Fails D := by
  simp only [checkBuffers, bind_apply, get_apply, Prog.andThen_ok, hgood, inside_some]
  rw [if_neg hne]
  refine leads_bind (leads_inside (fun htemp => (hD []).mpr fun hshown => ?_) fun _ htemp => ?_)
  · simp [inTemp, hshown.1] at htemp
  · have hlen := st.goodBuf.length_eq
    refine leads_bind (leads_inside (fun hget => (hD []).mpr fun hshown => ?_) fun _ hget => ?_)
    · have hlt := hshown.2
      rw [Buffer.get?, List.getElem?_eq_none_iff] at hget
      omega
    · obtain ⟨hlt, -⟩ := List.getElem?_eq_some_iff.mp hget
      have hle : agreeing good temp + 2 ≤ c.maxoplen := by
        by_contra hle
        simp [inTemp, hle] at htemp
      exact fails_reportFailure 110 fun answers hl => (hD answers).mp hl ⟨hle, by omega⟩

theorem judges_readBack (h : InStep st r) (hreal : c.simulatedopcount < st.testcalls)
    (hsize : size ≤ c.maxoplen) (hin : offset + size ≤ st.fileSize) :
    Judges (readBack offset size) st r (Kept st) := by
  obtain ⟨-, hlen, hgood⟩ := read_good h hreal hin
  refine judges_bind (judges_check h.isOpen (judges_bind ?_))
  rw [inTemp, if_pos hsize, judges_inside]
  refine judges_ask rfl ?_ ?_
  · rintro ret ⟨pos, hpos, rfl⟩
    obtain rfl : offset = pos := by simpa [File.next] using hpos
    simp only [File.next]
    refine judges_bind (judges_expect (decide_eq_true hlen) (judges_checkBuffers ?_ ?_))
    · rw [hlen]
      exact hgood
    · exact ⟨⟨⟨h.fits, h.lite, rfl, h.unmapped⟩, h.content⟩, rfl⟩
  · intro ret hret
    cases ret with
    | none =>
      refine fails_reportFailure 141 ?_
      rintro _ ⟨_, _, -, h, -⟩
      cases h
    | some temp =>
      by_cases htemp : temp.length = size
      · subst htemp
        have hne : readAt r.content offset temp.length ≠ temp := by
          intro heq
          exact hret ⟨offset, rfl, congrArg some heq.symm⟩
        simp only [decide_true]
        refine fails_checkBuffers hgood hne fun _ => ⟨?_, fun hn => ⟨_, _, rfl, rfl, rfl, hn⟩⟩
        rintro ⟨_, _, hpos, h, -, hn⟩
        cases hpos
        cases h
        exact hn
      · refine fails_bind (fails_expect (by simpa using htemp) ?_) _
        rintro _ ⟨_, _, -, h, hlen', -⟩
        cases h
        exact htemp hlen'

theorem Judges.kept {f : Op c Unit} {st₁ st₂ : State c} (h : Judges f st₂ r (Kept st₁))
    (heq : st₁.testcalls = st.testcalls) : Judges f st₂ r (Kept st) :=
  h.mono fun _ _ _ hk => ⟨hk.1, hk.2.trans heq⟩

theorem judges_doread (h : InStep st r) (hsize : size ≤ c.maxoplen)
    (hin : offset + size ≤ st.fileSize) : Judges (doread offset size) st r (Kept st) := by
  have hoff : offset - offset % c.readbdy + size ≤ st.fileSize := by omega
  refine judges_bind ?_
  rw [judges_get]
  split
  · exact ⟨h.log4 .., by simp⟩
  · refine judges_bind ?_
    rw [judges_logged]
    refine judges_unlessSimulated (fun _ => ⟨h.log4 .., by simp⟩) fun hreal => ?_
    exact (judges_readBack (h.log4 ..) hreal hsize (by simpa using hoff)).kept (by simp)

-- ---------------------------------------------------------------------------
-- Mapped reads
-- ---------------------------------------------------------------------------

theorem pageSize_pos (c : Settings) : 0 < c.pageSize := Nat.two_pow_pos _

theorem le_pageEnd (n : Nat) : n ≤ File.pageEnd c n := by
  have hps := pageSize_pos c
  have h := Nat.div_add_mod (n + c.pageSize - 1) c.pageSize
  have hlt := Nat.mod_lt (n + c.pageSize - 1) hps
  rw [Nat.mul_comm] at h
  unfold File.pageEnd
  omega

theorem pageEnd_of_mod_ne {n : Nat} (h : n % c.pageSize ≠ 0) :
    n - n % c.pageSize + c.pageSize ≤ File.pageEnd c n := by
  have hps := pageSize_pos c
  have hn := Nat.div_add_mod n c.pageSize
  have hm := Nat.mod_lt n hps
  have hd : n / c.pageSize + 1 ≤ (n + c.pageSize - 1) / c.pageSize := by
    rw [Nat.le_div_iff_mul_le hps, Nat.add_mul, Nat.mul_comm]
    omega
  have hle := Nat.mul_le_mul_right c.pageSize hd
  rw [Nat.add_mul, Nat.mul_comm] at hle
  unfold File.pageEnd
  omega

theorem page_unique {ps p q r s : Nat} (hr : r < ps) (hs : s < ps) (h₁ : ps * q < ps * p + r)
    (h₂ : ps * p + r ≤ ps * q + s) : p = q := by
  rcases Nat.lt_trichotomy p q with h | h | h
  · have hle := Nat.mul_le_mul_left ps h
    rw [Nat.mul_succ] at hle
    omega
  · exact h
  · have hle := Nat.mul_le_mul_left ps h
    rw [Nat.mul_succ] at hle
    omega

/-- If an operation reaches into the last page of the file, this is the page
`check_eofpage` looks at. -/
theorem last_page {ps offset size fileSize : Nat} (hps : 0 < ps) (hin : offset + size ≤ fileSize)
    (hlast : fileSize - fileSize % ps < offset + size) :
    offset - offset % ps + (offset % ps + size - (offset % ps + size) % ps) =
      fileSize - fileSize % ps ∧ (offset % ps + size) % ps ≠ 0 ∧ fileSize % ps ≠ 0 := by
  have ho := Nat.div_add_mod offset ps
  have hf := Nat.div_add_mod fileSize ps
  have hl := Nat.div_add_mod (offset % ps + size) ps
  have hmf := Nat.mod_lt fileSize hps
  have hml := Nat.mod_lt (offset % ps + size) hps
  have hq : offset / ps + (offset % ps + size) / ps = fileSize / ps := by
    refine page_unique hml hmf ?_ ?_
    · rw [Nat.mul_add]
      omega
    · rw [Nat.mul_add]
      omega
  have hq' : ps * (offset / ps) + ps * ((offset % ps + size) / ps) = ps * (fileSize / ps) := by
    rw [← Nat.mul_add, hq]
  omega

theorem padded_inside {content : List UInt8} (h : offset + size ≤ content.length) :
    File.padded content offset size = readAt content offset size := by
  have hr : resize 0 content (offset + size) = content.take (offset + size) := by
    simp [resize, Nat.sub_eq_zero_of_le h]
  rw [File.padded, hr, readAt_take (Nat.le_refl _)]

theorem padded_beyond (content : List UInt8) (size : Nat) :
    File.padded content content.length size = List.replicate size 0 := by
  have hr : resize 0 content (content.length + size) = content ++ List.replicate size 0 := by
    simp [resize, List.take_of_length_le]
  simp [File.padded, hr, readAt]

theorem agreeing_zeros (bytes : List UInt8) :
    agreeing (List.replicate bytes.length 0) bytes + (bytes.dropWhile (· = 0)).length =
      bytes.length := by
  induction bytes with
  | nil => rfl
  | cons b bytes ih =>
    by_cases hb : b = 0
    · subst hb
      simp only [List.length_cons, List.replicate_succ, agreeing, if_true]
      simp only [List.dropWhile_cons, decide_true, if_true]
      omega
    · have hb' : ¬(0 : UInt8) = b := fun h => hb h.symm
      simp [agreeing, hb, hb', List.replicate_succ]

theorem eq_zeros {size : Nat} {bytes : Buffer size}
    (h : agreeing (List.replicate size 0) bytes.bytes = size) :
    bytes.bytes = List.replicate size 0 := by
  have hagree := agreeing_zeros bytes.bytes
  rw [bytes.length_eq, h] at hagree
  have hdrop : bytes.bytes.dropWhile (· = 0) = [] := List.length_eq_zero_iff.mp (by omega)
  refine List.eq_replicate_iff.mpr ⟨bytes.length_eq, ?_⟩
  simpa [List.dropWhile_eq_nil_iff] using hdrop

theorem leads_restOfPage {rest : Buffer size}
    {P : Unit × State c → (List (Answer fsxSig) → Prop) → Prop}
    (hzeros : agreeing (List.replicate size 0) rest.bytes = size → P ((), st) D)
    (hlost : agreeing (List.replicate size 0) rest.bytes + 1 = size → D [])
    (hshown : agreeing (List.replicate size 0) rest.bytes + 1 < size → ∀ answers, ¬D answers) :
    ((match rest.bytes.dropWhile (· = 0) with
      | [] => pure ()
      | _ :: more => do
        let _ ← inside more.head?
        reportFailure 205 : Op c Unit) st).Leads D P := by
  have hagree := agreeing_zeros rest.bytes
  rw [rest.length_eq] at hagree
  cases hdrop : rest.bytes.dropWhile (· = 0) with
  | nil =>
    rw [hdrop] at hagree
    exact hzeros hagree
  | cons first more =>
    rw [hdrop, List.length_cons] at hagree
    refine leads_bind (leads_inside (fun hmore => hlost ?_) fun _ hmore => ?_)
    · rw [List.head?_eq_none_iff.mp hmore] at hagree
      exact hagree
    · have hpos : 0 < more.length := List.length_pos_of_mem (List.mem_of_mem_head? hmore)
      exact (fails_reportFailure 205 (hshown (by omega))).mono fun _ _ => False.elim

def Mapped (c : Settings) (r : File) (offset size : Nat) : Prop :=
  ∃ w, r.map = some (w, offset % c.pageSize + size, offset - offset % c.pageSize)

theorem judges_checkEofpage {Q : Unit → State c → File → Prop} (hm : Mapped c r offset size)
    (hlen : r.content.length = st.fileSize) (hin : offset + size ≤ st.fileSize) (hQ : Q () st r) :
    Judges (checkEofpage offset size) st r Q := by
  obtain ⟨w, hm⟩ := hm
  refine judges_bind ?_
  rw [judges_get]
  split
  · exact hQ
  · rename_i hlast
    obtain ⟨hpage, hmid, hmid'⟩ := last_page (pageSize_pos c) hin (Nat.lt_of_not_le hlast)
    have hend := pageEnd_of_mod_ne hmid
    have hend' := pageEnd_of_mod_ne hmid'
    have hmf := Nat.mod_lt st.fileSize (pageSize_pos c)
    have hstart : offset - offset % c.pageSize + (offset % c.pageSize + size -
        (offset % c.pageSize + size) % c.pageSize + st.fileSize % c.pageSize) =
          r.content.length := by
      have hle := Nat.mod_le st.fileSize c.pageSize
      omega
    refine judges_ask ⟨w, _, _, hm, ?_, ?_⟩ ?_ ?_
    · omega
    · rw [hlen] at hstart ⊢
      omega
    · rintro loaded ⟨w', length, off, hm', hb⟩
      rw [hm] at hm'
      obtain ⟨rfl, rfl, rfl⟩ : w = w' ∧ _ = length ∧ _ = off := by simpa using hm'
      rw [hstart, padded_beyond] at hb
      have hzeros : loaded.bytes.dropWhile (· = 0) = [] := by simp [hb]
      rw [hzeros]
      exact hQ
    · intro rest hb
      refine leads_restOfPage ?_ ?_ ?_
      · intro hzeros
        refine hb ⟨w, _, _, hm, ?_⟩
        rw [hstart, padded_beyond]
        exact eq_zeros hzeros
      · intro hwrong
        refine ⟨w, _, _, hm, ?_⟩
        rw [hstart, padded_beyond]
        simpa using hwrong
      · rintro hwrong answers ⟨w', length, off, hm', hl⟩
        rw [hm] at hm'
        obtain ⟨rfl, rfl, rfl⟩ : w = w' ∧ _ = length ∧ _ = off := by simpa using hm'
        rw [hstart, padded_beyond] at hl
        simp only [Nat.lt_irrefl, ↓reduceIte] at hl
        omega

theorem fails_mapBack {good : List UInt8} {temp : Buffer size}
    (hgood : st.goodBuf.read? offset size = some good) (hne : good ≠ temp.bytes)
    (hD : ∀ answers, D answers ↔ File.lost (File.Shown c offset (agreeing good temp.bytes)) answers) :
    ((checkEofpage offset size >>= fun _ => check 191 (.munmap (offset % c.pageSize + size)) >>=
      fun _ => checkBuffers offset temp.bytes) st : Prog fsxSig _).Fails D := by
  have hcompared {D : List (Answer fsxSig) → Prop}
      (hD : ∀ answers, D answers ↔ File.lost (File.Shown c offset (agreeing good temp.bytes)) answers) :
      ((check 191 (.munmap (offset % c.pageSize + size)) >>= fun _ =>
        checkBuffers offset temp.bytes) st : Prog fsxSig _).Fails D := by
    refine leads_bind (leads_check (fun answers hl => ?_) ?_)
    · exact absurd ((hD _).mp hl).1 Bool.false_ne_true
    · refine fails_checkBuffers (by rw [temp.length_eq]; exact hgood) hne fun answers => ?_
      exact (hD _).trans (and_iff_right rfl)
  refine leads_bind ?_
  unfold checkEofpage
  rw [bind_apply, get_apply, Prog.andThen_ok]
  dsimp only
  split
  · exact hcompared hD
  · intro rest
    refine leads_restOfPage ?_ ?_ ?_
    · intro hzeros
      refine hcompared fun answers => (hD _).trans ?_
      rw [File.lost, if_neg (Nat.not_lt.mpr hzeros.ge)]
    · intro hwrong
      refine (hD _).mpr ?_
      rw [File.lost, if_pos (Nat.lt_of_succ_le hwrong.le)]
      exact hwrong
    · intro hwrong answers hl
      have hlost := (hD _).mp hl
      rw [File.lost, if_pos (Nat.lt_of_succ_lt hwrong)] at hlost
      exact Nat.ne_of_lt hwrong hlost

theorem judges_mapBack (h : InStep st r) (hreal : c.simulatedopcount < st.testcalls)
    (hpos : 0 < size) (hsize : size ≤ c.maxoplen) (hin : offset + size ≤ st.fileSize) :
    Judges (mapBack offset size) st r (Kept st) := by
  obtain ⟨-, hlen, hgood⟩ := read_good h hreal hin
  have hcontent := h.length hreal
  have hfit : offset + size ≤ r.content.length := hcontent ▸ hin
  have hsum : offset - offset % c.pageSize + offset % c.pageSize = offset :=
    Nat.sub_add_cancel (Nat.mod_le _ _)
  have hpage : (offset - offset % c.pageSize) % c.pageSize = 0 :=
    Nat.sub_mod_eq_zero_of_mod_eq (by simp)
  refine judges_bind (judges_check ⟨h.isOpen, h.unmapped, by omega, hpage⟩ (judges_bind ?_))
  rw [inTemp, if_pos hsize, judges_inside]
  simp only [File.next]
  refine judges_ask ⟨_, _, _, rfl, le_pageEnd _, ?_⟩ ?_ ?_
  · rw [hsum]
    exact hfit.trans (le_pageEnd _)
  · rintro loaded ⟨w, length, off, hm, hb⟩
    obtain ⟨rfl, rfl, rfl⟩ : false = w ∧ _ = length ∧ _ = off := by simpa using hm
    rw [hsum, padded_inside hfit] at hb
    simp only [File.next]
    refine judges_bind (judges_checkEofpage ⟨_, rfl⟩ hcontent hin ?_)
    refine judges_bind (judges_check ⟨_, _, rfl⟩ ?_)
    refine judges_checkBuffers ?_ ⟨⟨⟨h.fits, h.lite, h.isOpen, rfl⟩, h.content⟩, rfl⟩
    rw [loaded.length_eq, hb]
    exact hgood
  · intro loaded hb
    refine fails_mapBack hgood (fun heq => hb ⟨_, _, _, rfl, ?_⟩) fun answers => ?_
    · rw [hsum, padded_inside hfit]
      exact heq.symm
    · have hlost : (if offset - offset % c.pageSize + offset % c.pageSize < r.content.length then
          File.lost (File.Shown c (offset - offset % c.pageSize + offset % c.pageSize) (agreeing
            (File.padded r.content (offset - offset % c.pageSize + offset % c.pageSize) size)
              loaded.bytes)) answers
          else agreeing (File.padded r.content (offset - offset % c.pageSize + offset % c.pageSize) size)
            loaded.bytes + 1 = size) ↔
          File.lost (File.Shown c offset (agreeing (readAt r.content offset size) loaded.bytes))
            answers := by
        rw [hsum, padded_inside hfit, if_pos (by omega)]
      refine Iff.trans ⟨?_, fun hl => ⟨_, _, _, rfl, hl⟩⟩ hlost
      rintro ⟨w, length, off, hm, hl⟩
      cases hm
      exact hl

theorem judges_domapread (h : InStep st r) (hsize : size ≤ c.maxoplen)
    (hin : offset + size ≤ st.fileSize) : Judges (domapread offset size) st r (Kept st) := by
  have hoff : offset - offset % c.readbdy + size ≤ st.fileSize := by omega
  refine judges_bind ?_
  rw [judges_get]
  split
  · exact ⟨h.log4 .., by simp⟩
  · rename_i hskip
    refine judges_bind ?_
    rw [judges_logged]
    refine judges_unlessSimulated (fun _ => ⟨h.log4 .., by simp⟩) fun hreal => ?_
    exact (judges_mapBack (h.log4 ..) hreal (by omega) hsize (by simpa using hoff)).kept (by simp)

-- ---------------------------------------------------------------------------
-- Writes
-- ---------------------------------------------------------------------------

structure Generated (st : State c) (offset size : Nat) (good : Buffer c.maxfilelen) : Prop where
  gap : ∀ i, st.fileSize ≤ i → i < offset → good.bytes.getD i 0 = 0
  same : ∀ i < st.fileSize, ¬(offset ≤ i ∧ i < offset + size) →
    good.bytes.getD i 0 = st.goodBuf.bytes.getD i 0

def State.extended (st : State c) (offset size : Nat) (good : Buffer c.maxfilelen) : State c :=
  { st with goodBuf := good, fileSize := max st.fileSize (offset + size) }

theorem judges_generate {status : Nat} {Q : Unit → State c → File → Prop} (h : Sized st r)
    (hin : offset + size ≤ c.maxfilelen)
    (hQ : ∀ good, Generated st offset size good → Q () (st.extended offset size good) r) :
    Judges (generate status offset size) st r Q := by
  obtain ⟨good₁, hgen, h₁⟩ := @gendata_eq _ st.testcalls st.originalBuf st.goodBuf _ _ hin
  refine judges_bind ?_
  rw [judges_get, hgen]
  refine judges_bind ?_
  rw [judges_inside]
  split
  · rename_i hext
    have hlite : c.lite = false := by
      rw [Bool.eq_false_iff]
      intro hl
      have := h.lite hl
      omega
    obtain ⟨good₂, hclear, h₂⟩ : ∃ good₂, (if st.fileSize < offset then
        good₁.clear? st.fileSize (offset - st.fileSize) else some good₁) = some good₂ ∧
          ∀ i, good₂.bytes.getD i 0 =
            if st.fileSize ≤ i ∧ i < offset then 0 else good₁.bytes.getD i 0 := by
      split
      · rename_i hgap
        obtain ⟨good₂, hclear, h₂⟩ := @Buffer.clear?_eq _ good₁ st.fileSize (offset - st.fileSize)
          (by omega)
        refine ⟨good₂, hclear, fun i => ?_⟩
        rw [h₂, Nat.add_sub_cancel' (by omega)]
      · exact ⟨good₁, rfl, fun i => (if_neg (by omega)).symm⟩
    refine judges_bind ?_
    rw [hclear, judges_inside]
    refine judges_bind ?_
    rw [judges_set, hlite]
    have hmax : max st.fileSize (offset + size) = offset + size := by omega
    have hq := hQ good₂ ⟨fun i hi hi' => by rw [h₂, if_pos ⟨hi, hi'⟩], fun i hi hout => by
      rw [h₂, if_neg (by omega), h₁ i hout]⟩
    rw [State.extended, hmax] at hq
    exact hq
  · have hmax : max st.fileSize (offset + size) = st.fileSize := by omega
    have hq := hQ good₁ ⟨fun i hi hi' => by omega, fun i _ hout => h₁ i hout⟩
    rw [State.extended, hmax] at hq
    exact hq

namespace InStep

variable {good : Buffer c.maxfilelen}

theorem extended (h : Sized st r) (hin : offset + size ≤ c.maxfilelen) {r' : File}
    (hopen : r'.pos.isSome) (hmap : r'.map = none)
    (hcontent : r'.content = if c.simulatedopcount < st.testcalls then
      (st.extended offset size good).image else blank c) :
    InStep (st.extended offset size good) r' := by
  have hfits := h.fits
  refine ⟨⟨?_, fun hl => ?_, hopen, hmap⟩, hcontent⟩
  · exact Nat.max_le.mpr ⟨hfits, hin⟩
  · have hl' := h.lite hl
    simp only [State.extended]
    omega

/-- What is written from `good_buf` brings the file in step again. -/
theorem writeAt (h : InStep st r) (hreal : c.simulatedopcount < st.testcalls) (hpos : 0 < size)
    (hin : offset + size ≤ c.maxfilelen) (hg : Generated st offset size good) :
    Extents.writeAt 0 r.content offset (readAt good.bytes offset size) =
      (st.extended offset size good).image := by
  rw [h.image hreal]
  exact writeAt_image hpos hin h.fits hg.gap hg.same

end InStep

theorem judges_generated {status : Nat} {f : Op c Unit} (h : InStep st r)
    (hin : offset + size ≤ c.maxfilelen)
    (hf : ∀ good, Generated st offset size good → c.simulatedopcount < st.testcalls →
      Judges f (st.extended offset size good) r (Kept st)) :
    Judges (generate status offset size >>= fun _ => unlessSimulated f) st r (Kept st) := by
  refine judges_bind (judges_generate h.toSized hin fun good hg => ?_)
  refine judges_unlessSimulated (fun hsim => ?_) (hf good hg)
  have hn : ¬c.simulatedopcount < st.testcalls := Nat.not_lt.mpr hsim
  refine ⟨InStep.extended h.toSized hin h.isOpen h.unmapped ?_, rfl⟩
  rw [if_neg hn, h.content, if_neg hn]

theorem length_readAt {good : Buffer c.maxfilelen} (hin : offset + size ≤ c.maxfilelen) :
    (readAt good.bytes offset size).length = size := by
  have hlen := good.length_eq
  simp only [readAt, List.length_take, List.length_drop]
  omega

theorem judges_writeOut {good : Buffer c.maxfilelen} (h : InStep st r)
    (hreal : c.simulatedopcount < st.testcalls) (hpos : 0 < size)
    (hin : offset + size ≤ c.maxfilelen) (hg : Generated st offset size good) :
    Judges (writeOut offset size) (st.extended offset size good) r (Kept st) := by
  refine judges_bind ?_
  rw [judges_get]
  refine judges_bind (judges_check h.isOpen (judges_bind ?_))
  have hread : (st.extended offset size good).goodBuf.read? offset size =
      some (readAt good.bytes offset size) := Buffer.read?_eq hin
  rw [hread, judges_inside]
  refine judges_ask rfl ?_ ?_
  · rintro _ rfl
    refine judges_expect (by simp [length_readAt hin])
      ⟨InStep.extended h.toSized hin rfl h.unmapped ?_, rfl⟩
    rw [if_pos hreal]
    exact h.writeAt hreal hpos hin hg
  · intro ret hret
    refine fails_expect (decide_eq_false fun heq => hret ?_) fun _ => id
    rw [heq]
    exact congrArg some (length_readAt hin).symm

theorem judges_dowrite (h : InStep st r) (hin : offset + size ≤ c.maxfilelen) :
    Judges (dowrite offset size) st r (Kept st) := by
  have hoff : offset - offset % c.writebdy + size ≤ c.maxfilelen := by omega
  unfold dowrite
  dsimp only
  split
  · exact ⟨h.log4 .., by simp⟩
  · rename_i hpos
    refine judges_bind ?_
    rw [judges_get]
    refine judges_bind ?_
    rw [judges_logged]
    have h' := h.log4 .write (offset - offset % c.writebdy) size st.fileSize
    refine Judges.kept (judges_generated h' hoff fun good hg hreal => ?_) (by simp)
    exact judges_writeOut h' hreal (by omega) hoff hg

-- ---------------------------------------------------------------------------
-- Mapped writes
-- ---------------------------------------------------------------------------

/-- The file is extended before it is mapped, which makes no difference. -/
theorem writeAt_resize {content data : List UInt8} (hdata : data ≠ []) :
    writeAt 0 (resize 0 content (max content.length (offset + data.length))) offset data =
      writeAt 0 content offset data := by
  apply ext_getD
  · simp only [length_writeAt, if_neg hdata, length_resize]
    omega
  · intro i _
    rw [getD_writeAt, getD_writeAt, getD_resize]
    split
    · rfl
    · split
      · rfl
      · simp [List.getElem?_eq_none (by omega : content.length ≤ i)]

theorem judges_mapStore {good : Buffer c.maxfilelen} (h : Sized st r)
    (hreal : c.simulatedopcount < st.testcalls) (hpos : 0 < size)
    (hin : offset + size ≤ c.maxfilelen) (hlen : r.content.length = max st.fileSize (offset + size))
    (himage : writeAt 0 r.content offset (readAt good.bytes offset size) =
      (st.extended offset size good).image) :
    Judges (mapStore offset size) (st.extended offset size good) r (Kept st) := by
  have hsum : offset - offset % c.pageSize + offset % c.pageSize = offset :=
    Nat.sub_add_cancel (Nat.mod_le _ _)
  have hpage : (offset - offset % c.pageSize) % c.pageSize = 0 :=
    Nat.sub_mod_eq_zero_of_mod_eq (by simp)
  have hread : (st.extended offset size good).goodBuf.read? offset size =
      some (readAt good.bytes offset size) := Buffer.read?_eq hin
  have hdata := @length_readAt c offset size good hin
  refine judges_bind ?_
  rw [judges_get]
  refine judges_bind (judges_check ⟨h.isOpen, h.unmapped, by omega, hpage⟩ (judges_bind ?_))
  rw [hread, judges_inside]
  simp only [File.next]
  refine judges_ask ⟨_, _, rfl, ?_, ?_⟩ ?_ fun _ hn => absurd trivial hn
  · omega
  · rw [hsum, hdata]
    show offset + size ≤ r.content.length
    omega
  · rintro _ -
    simp only [File.next, Option.map_some, Option.getD_some, hsum, himage]
    have himageLen : (st.extended offset size good).image.length =
        (st.extended offset size good).fileSize := by
      rw [State.image, List.length_take, Buffer.length_eq]
      exact min_eq_left (Nat.max_le.mpr ⟨h.fits, hin⟩)
    have hend : Judges (checkEofpage offset size >>= fun _ =>
        check 204 (.munmap (offset % c.pageSize + size))) (st.extended offset size good)
        { content := (st.extended offset size good).image, pos := r.pos,
          map := some (true, offset % c.pageSize + size, offset - offset % c.pageSize) } (Kept st) := by
      refine judges_bind (judges_checkEofpage ⟨_, rfl⟩ himageLen (Nat.le_max_right _ _) ?_)
      refine judges_check ⟨_, _, rfl⟩ ⟨InStep.extended h hin h.isOpen rfl ?_, rfl⟩
      exact (if_pos hreal).symm
    exact judges_bind (judges_when (fun _ => judges_check rfl hend) fun _ => hend)

theorem judges_mapOut {good : Buffer c.maxfilelen} (h : InStep st r)
    (hreal : c.simulatedopcount < st.testcalls) (hpos : 0 < size)
    (hin : offset + size ≤ c.maxfilelen) (hg : Generated st offset size good) :
    Judges (mapOut st.fileSize offset size) (st.extended offset size good) r (Kept st) := by
  have hlen := h.length hreal
  have hdata := @length_readAt c offset size good hin
  have hwrite := h.writeAt hreal hpos hin hg
  refine judges_bind ?_
  rw [judges_get]
  split
  · rename_i hext
    refine judges_ask h.isOpen ?_ ?_
    · rintro _ rfl
      refine judges_mapStore ⟨h.fits, h.lite, h.isOpen, h.unmapped⟩ hreal hpos hin ?_ ?_
      · exact length_resize ..
      · have hresize := @writeAt_resize offset r.content (readAt good.bytes offset size)
          (List.ne_nil_of_length_pos (by omega))
        rw [hdata, hlen] at hresize
        exact hresize.trans hwrite
    · intro ok hok
      obtain rfl : ok = false := by simpa [File.replies] using hok
      exact id
  · rename_i hext
    have hmax : max st.fileSize (offset + size) = st.fileSize := by
      simp only [State.extended] at hext
      omega
    exact judges_mapStore h.toSized hreal hpos hin (hlen.trans hmax.symm) hwrite

theorem judges_domapwrite (h : InStep st r) (hin : offset + size ≤ c.maxfilelen) :
    Judges (domapwrite offset size) st r (Kept st) := by
  have hoff : offset - offset % c.writebdy + size ≤ c.maxfilelen := by omega
  unfold domapwrite
  dsimp only
  split
  · exact ⟨h.log4 .., by simp⟩
  · rename_i hpos
    refine judges_bind ?_
    rw [judges_get]
    refine judges_bind ?_
    rw [judges_logged]
    have h' := h.log4 .mapwrite (offset - offset % c.writebdy) size 0
    refine Judges.kept (judges_generated h' hoff fun good hg hreal => ?_) (by simp)
    have hout := judges_mapOut h' hreal (by omega) hoff hg
    rwa [State.log4_fileSize] at hout

-- ---------------------------------------------------------------------------
-- Truncations, and what else is done to the file
-- ---------------------------------------------------------------------------

theorem judges_dotruncate (h : InStep st r) (hlite : c.lite = false)
    (hin : size - size % c.truncbdy ≤ c.maxfilelen) : Judges (dotruncate size) st r (Kept st) := by
  refine judges_bind ?_
  rw [judges_get]
  dsimp only
  generalize hlog : st.log4 .truncate (size - size % c.truncbdy) st.fileSize 0 = st₁
  have h₁ : InStep st₁ r := hlog ▸ h.log4 ..
  have hcalls : st₁.testcalls = st.testcalls := by
    rw [← hlog]
    simp
  generalize size - size % c.truncbdy = newSize at hin ⊢
  obtain ⟨good, hclear, hgood⟩ : ∃ good, (if newSize > st₁.fileSize then
      st₁.goodBuf.clear? st₁.fileSize (newSize - st₁.fileSize) else some st₁.goodBuf) = some good ∧
        ∀ i, good.bytes.getD i 0 =
          if st₁.fileSize ≤ i ∧ i < newSize then 0 else st₁.goodBuf.bytes.getD i 0 := by
    split
    · obtain ⟨good, hclear, hgood⟩ := @Buffer.clear?_eq _ st₁.goodBuf st₁.fileSize
        (newSize - st₁.fileSize) (by omega)
      refine ⟨good, hclear, fun i => ?_⟩
      rw [hgood, Nat.add_sub_cancel' (by omega)]
    · exact ⟨st₁.goodBuf, rfl, fun i => (if_neg (by omega)).symm⟩
  refine judges_bind ?_
  rw [hclear, judges_inside]
  refine judges_bind ?_
  rw [judges_set]
  have hnl : ¬c.lite = true := by simp [hlite]
  refine judges_unlessSimulated (fun hsim => ?_) fun hreal => judges_check h₁.isOpen ?_
  · have hn : ¬c.simulatedopcount < st₁.testcalls := Nat.not_lt.mpr hsim
    refine ⟨⟨⟨hin, fun hl => absurd hl hnl, h₁.isOpen, h₁.unmapped⟩, ?_⟩, hcalls⟩
    rw [if_neg hn, h₁.content, if_neg hn]
  · refine ⟨⟨⟨hin, fun hl => absurd hl hnl, h₁.isOpen, h₁.unmapped⟩, ?_⟩, hcalls⟩
    rw [if_pos hreal]
    simp only [File.next, h₁.image hreal]
    refine resize_image hin (fun i hi hi' => ?_) fun i hi => ?_
    · rw [hgood, if_pos ⟨hi, hi'⟩]
    · rw [hgood, if_neg (by omega)]

theorem judges_checkSize (h : InStep st r) (hreal : c.simulatedopcount < st.testcalls) :
    Judges checkSize st r (Kept st) := by
  have hlen := h.length hreal
  refine judges_bind ?_
  rw [judges_get]
  refine judges_ask h.isOpen ?_ ?_
  · rintro _ rfl
    refine judges_ask h.isOpen ?_ ?_
    · rintro _ rfl
      refine judges_expect (by simp [File.next, hlen]) ?_
      exact ⟨⟨⟨h.fits, h.lite, rfl, h.unmapped⟩, h.content⟩, rfl⟩
    · intro size hsize
      refine fails_expect (decide_eq_false fun heq => hsize ?_) fun _ => id
      simp only [File.replies, File.next, hlen]
      exact heq.2
  · intro size hsize
    refine fun sizeBySeek => fails_expect (decide_eq_false fun heq => hsize ?_) fun _ => id
    simp only [File.replies, hlen]
    exact heq.1

theorem judges_docloseopen (h : InStep st r) : Judges docloseopen st r (Kept st) := by
  refine judges_unlessSimulated (fun _ => ⟨h, rfl⟩) fun _ => ?_
  refine judges_bind (judges_check ⟨h.isOpen, h.unmapped⟩ (judges_check rfl ?_))
  exact ⟨⟨⟨h.fits, h.lite, rfl, h.unmapped⟩, h.content⟩, rfl⟩

theorem judges_doinvl (h : InStep st r) : Judges doinvl st r (Kept st) := by
  refine judges_bind ?_
  rw [judges_get]
  split
  · exact ⟨h, rfl⟩
  · rename_i hne
    refine judges_unlessSimulated (fun _ => ⟨h, rfl⟩) fun _ => ?_
    refine judges_bind (judges_check ⟨h.isOpen, h.unmapped, Nat.pos_of_ne_zero hne, Nat.zero_mod _⟩ ?_)
    refine judges_bind (judges_check rfl (judges_check ⟨_, _, rfl⟩ ?_))
    exact ⟨⟨⟨h.fits, h.lite, h.isOpen, rfl⟩, h.content⟩, rfl⟩

-- ---------------------------------------------------------------------------
-- A test
-- ---------------------------------------------------------------------------

/-- Truncations to less than an operation's size stay within `good_buf`. -/
def Settings.Safe (c : Settings) : Prop := c.lite = false → c.smallTruncates = true →
  c.maxoplen - c.maxoplen % c.truncbdy ≤ c.maxfilelen

structure Between (st : State c) (r : File) : Prop extends Sized st r where
  content : r.content =
    if c.simulatedopcount = 0 ∨ c.simulatedopcount < st.testcalls then st.image else blank c

theorem InStep.between (h : InStep st r) (hpos : 0 < st.testcalls) : Between st r := by
  refine ⟨h.toSized, h.content.trans (if_congr ?_ rfl rfl)⟩
  omega

theorem length_image (h : Sized st r) : st.image.length = st.fileSize := by
  rw [State.image, List.length_take, Buffer.length_eq]
  exact min_eq_left h.fits

theorem writeAt_blank (h : Sized st r) : writeAt 0 (blank c) 0 st.image = st.image := by
  have hlen := length_image h
  have hpos := c.maxfilelen_pos
  unfold writeAt blank
  split
  · rename_i himage
    rw [himage] at hlen ⊢
    refine if_neg fun hl => ?_
    have := h.lite hl
    simp only [List.length_nil] at hlen
    omega
  · split
    · rename_i hl
      simp [resize, hlen, h.lite hl]
    · simp [resize]

theorem judges_writefileimage (h : Sized st r) (hblank : r.content = blank c) {Q}
    (hQ : ∀ r' : File, r'.pos.isSome → r'.map = none → r'.content = st.image → Q () st r') :
    Judges writefileimage st r Q := by
  have hlen := length_image h
  have hread : st.goodBuf.read? 0 st.fileSize = some st.image := by
    rw [Buffer.read?_eq (by simpa using h.fits)]
    simp [readAt, State.image]
  refine judges_bind ?_
  rw [judges_get]
  refine judges_bind (judges_check h.isOpen (judges_bind ?_))
  rw [hread, judges_inside]
  refine judges_ask rfl ?_ ?_
  · rintro _ rfl
    refine judges_bind (judges_expect (by simp [hlen]) ?_)
    have himage : writeAt 0 r.content 0 st.image = st.image := hblank ▸ writeAt_blank h
    refine judges_when (fun _ => ?_) fun _ => ?_
    · refine judges_check rfl (hQ _ rfl h.unmapped ?_)
      simp [File.next, himage, resize, ← hlen]
    · exact hQ _ rfl h.unmapped himage
  · intro ret hret
    refine fails_bind (fails_expect (decide_eq_false fun heq => hret ?_) fun _ => id) _
    simp only [File.replies, hlen]
    exact heq

theorem judges_begin (h : Between st r) (rv : Nat) : Judges (begin_ rv) st r fun _ st' r' =>
    InStep st' r' ∧ st'.testcalls = st.testcalls + 1 := by
  have hbefore := h.content
  refine judges_bind ?_
  rw [judges_get]
  refine judges_bind (judges_when (fun himage => ?_) fun himage => ?_)
  · obtain ⟨hsim, hnow⟩ := of_decide_eq_true himage
    rw [if_neg (by omega)] at hbefore
    refine judges_writefileimage h.toSized hbefore fun r' hopen hmap hcontent => ?_
    refine ⟨⟨⟨h.fits, h.lite, hopen, hmap⟩, hcontent.trans (if_pos ?_).symm⟩, rfl⟩
    exact Nat.lt_succ_of_le (Nat.le_of_eq hnow.symm)
  · have himage' := of_decide_eq_false himage
    refine ⟨⟨⟨h.fits, h.lite, h.isOpen, h.unmapped⟩, hbefore.trans (if_congr ?_ rfl rfl)⟩, rfl⟩
    show _ ↔ c.simulatedopcount < st.testcalls + 1
    omega

theorem judges_writeAtRandom (h : InStep st r) (mapped : Bool) (size : Nat) :
    Judges (writeAtRandom mapped size) st r (Kept st) := by
  refine judges_ask trivial (fun (rv : Nat) _ => ?_) fun _ hn => absurd trivial hn
  have hoff : rv % c.maxfilelen < c.maxfilelen := Nat.mod_lt _ c.maxfilelen_pos
  have hin : rv % c.maxfilelen + (if rv % c.maxfilelen + size > c.maxfilelen then
      c.maxfilelen - rv % c.maxfilelen else size) ≤ c.maxfilelen := by
    split
    · omega
    · omega
  dsimp only
  split
  · exact judges_domapwrite h hin
  · exact judges_dowrite h hin

theorem judges_readAtRandom (h : InStep st r) (mapped : Bool) (hsize : size ≤ c.maxoplen) :
    Judges (readAtRandom mapped size) st r (Kept st) := by
  refine judges_ask trivial (fun (rv : Nat) _ => judges_bind ?_) fun _ hn => absurd trivial hn
  rw [judges_get]
  dsimp only
  have hoff : (if st.fileSize = 0 then 0 else rv % st.fileSize) ≤ st.fileSize := by
    split
    · omega
    · exact Nat.le_of_lt (Nat.mod_lt _ (by omega))
  generalize (if st.fileSize = 0 then 0 else rv % st.fileSize) = offset at hoff ⊢
  have hin : offset + (if offset + size > st.fileSize then st.fileSize - offset else size) ≤
      st.fileSize := by
    split
    · omega
    · omega
  have hle : (if offset + size > st.fileSize then st.fileSize - offset else size) ≤ c.maxoplen := by
    split
    · omega
    · exact hsize
  split
  · exact judges_domapread h hle hin
  · exact judges_doread h hle hin

theorem judges_opSize {Q : Nat → State c → File → Prop} (hQ : ∀ size ≤ c.maxoplen, Q size st r) :
    Judges opSize st r Q := by
  unfold opSize
  split
  · refine judges_ask trivial (fun (rv : Nat) _ => ?_) fun _ hn => absurd trivial hn
    exact hQ _ (Nat.le_of_lt_succ (Nat.mod_lt _ (Nat.succ_pos _)))
  · exact hQ _ (Nat.le_refl _)

theorem judges_perform (hsafe : c.Safe) (h : InStep st r) (op : Nat) :
    Judges (perform op) st r (Kept st) := by
  unfold perform
  split
  · rename_i hop
    refine judges_ask trivial (fun (rv : Nat) _ => ?_) fun _ hn => absurd trivial hn
    refine judges_dotruncate h (by simpa using hop.1) ?_
    have := Nat.mod_lt rv c.maxfilelen_pos
    omega
  · rename_i hop
    refine judges_bind (judges_opSize fun size hsize => ?_)
    split
    · rename_i htrunc
      have hlite : c.lite = false := by simpa using htrunc.1
      have hstyle : c.smallTruncates = true := by
        by_contra hs
        exact hop ⟨htrunc.1, htrunc.2, hs⟩
      refine judges_dotruncate h hlite (Nat.le_trans ?_ (hsafe hlite hstyle))
      have hdiv := Nat.mul_le_mul_left c.truncbdy (Nat.div_le_div_right (c := c.truncbdy) hsize)
      have h₁ := Nat.div_add_mod size c.truncbdy
      have h₂ := Nat.div_add_mod c.maxoplen c.truncbdy
      omega
    · split
      · exact judges_writeAtRandom h false size
      · by_cases hmap : op = if c.lite = true then 3 else 4
        · rw [if_pos hmap]
          exact judges_writeAtRandom h true size
        · rw [if_neg hmap]
          exact judges_readAtRandom h _ hsize

theorem judges_finish (h : InStep st r) : Judges finish st r (Kept st) := by
  have hafter {st₁ : State c} {r₁ : File} (h₁ : Kept st () st₁ r₁) :
      Judges (get >>= fun st => when_ st.invl doinvl >>= fun _ => when_ st.closeopen docloseopen)
        st₁ r₁ (Kept st) := by
    refine judges_bind ?_
    rw [judges_get]
    refine Judges.kept (judges_bind ?_) h₁.2
    have hclose {st₂ : State c} {r₂ : File} (h₂ : Kept st₁ () st₂ r₂) :
        Judges (when_ st₁.closeopen docloseopen) st₂ r₂ (Kept st₁) :=
      judges_when (fun _ => (judges_docloseopen h₂.1).kept h₂.2) fun _ => h₂
    exact judges_when (fun _ => (judges_doinvl h₁.1).mono fun _ _ _ => hclose) fun _ =>
      hclose ⟨h₁.1, rfl⟩
  refine judges_bind (judges_when (fun _ => ?_) fun _ => hafter ⟨h, rfl⟩)
  refine judges_unlessSimulated (fun _ => hafter ⟨h, rfl⟩) fun hreal => ?_
  exact (judges_checkSize h hreal).mono fun _ _ _ => hafter

theorem judges_test (hsafe : c.Safe) (h : Between st r) : Judges test st r fun _ st' r' =>
    Between st' r' ∧ st'.testcalls = st.testcalls + 1 := by
  refine judges_ask trivial (fun (rv : Nat) _ => ?_) fun _ hn => absurd trivial hn
  refine judges_bind ((judges_begin h rv).mono fun _ st₁ r₁ h₁ => ?_)
  refine judges_bind ((judges_perform hsafe h₁.1 _).mono fun _ st₂ r₂ h₂ => ?_)
  refine (judges_finish h₂.1).mono fun _ st₃ r₃ h₃ => ?_
  have hcalls : st₃.testcalls = st.testcalls + 1 := h₃.2.trans (h₂.2.trans h₁.2)
  exact ⟨h₃.1.between (by omega), hcalls⟩

theorem judges_tests (hsafe : c.Safe) (n : Nat) (h : Between st r) :
    Judges (tests n) st r fun _ st' r' => Between st' r' ∧ st'.testcalls = st.testcalls + n := by
  induction n generalizing st r with
  | zero => exact ⟨h, rfl⟩
  | succ n ih =>
    refine judges_bind ((judges_test hsafe h).mono fun _ st₁ r₁ h₁ => ?_)
    exact (ih h₁.1).mono fun _ st₂ r₂ h₂ => ⟨h₂.1, by omega⟩

theorem between_start (originalBuf : Buffer c.maxfilelen) (pos : Nat) :
    Between (start c originalBuf) { content := blank c, pos := some pos } := by
  refine ⟨⟨?_, fun hl => if_pos hl, rfl, rfl⟩, ?_⟩
  · simp only [start]
    split
    · exact Nat.le_refl _
    · exact Nat.zero_le _
  · have himage : (start c originalBuf).image = blank c := by
      simp only [State.image, start, blank, Buffer.zeros]
      split
      · simp
      · simp
    rw [himage, ite_self]

end

theorem judges_mainLoop (hsafe : c.Safe) (numops : Nat) (originalBuf : Buffer c.maxfilelen)
    (pos : Nat) : Judges (mainLoop numops) (start c originalBuf)
      { content := blank c, pos := some pos } fun _ st r => r.content =
        if c.simulatedopcount = 0 ∨ c.simulatedopcount < numops then st.image else blank c := by
  refine judges_bind ((judges_tests hsafe numops (between_start originalBuf pos)).mono ?_)
  intro _ st r h
  refine judges_check ⟨h.1.isOpen, h.1.unmapped⟩ ?_
  have hcalls : st.testcalls = numops := h.2.trans (Nat.zero_add numops)
  have hcontent := h.1.content
  rwa [hcalls] at hcontent

/-- In any environment, the loop comes to a good end exactly if every reply has been
as the file should give it, and is lost exactly if the first reply that is not is one
whose report shows a byte after the end of a buffer or a page. Otherwise it ends with
a failure. Until that reply, no call is out of place: what is loaded and stored is in
the mapping and in the file. -/
theorem mainLoop_verdict {σ : Type} (c : Settings) (hsafe : c.Safe) (numops : Nat)
    (originalBuf : Buffer c.maxfilelen) (pos : Nat) (h : Handler fsxSig σ) (s : σ) :
    let file : File := { content := blank c, pos := some pos }
    let loop := mainLoop numops (start c originalBuf)
    ((∃ res s', loop.run h s = some (.ok res, s')) ↔ (reference c).Conforms file (loop.trace h s)) ∧
      (loop.run h s = none ↔ (reference c).Loses file (loop.trace h s)) ∧
      (reference c).Proper file (loop.trace h s) := by
  obtain ⟨hproper, hok, -, hlost⟩ := Prog.Judges.run (judges_mainLoop hsafe numops originalBuf pos) h s
  exact ⟨hok, hlost, hproper⟩

def tiny : Settings where
  maxfilelen := 4
  maxoplen := 4
  smallTruncates := true
  maxfilelen_pos := by decide
  sizes := by decide
  bdy_pos := by decide

def single : Settings where
  maxfilelen := 1
  maxoplen := 1
  lite := true
  randomoplen := false
  mappedWrites := false
  maxfilelen_pos := Nat.one_pos
  sizes := by decide
  bdy_pos := by decide

def holding (byte : UInt8) : Handler fsxSig Unit := fun call _ =>
  (match call with
    | .random => 0
    | .checked _ => true
    | .seekEnd | .fstat => some 1
    | .read _ => some [byte]
    | .write data => some data.length
    | .load _ size => Buffer.zeros size
    | .saveSeekEnd => none
    | .store .. | .saveSeek | .saveWrite _ | .saveClose => (), ())

/-- The byte should be zero. If it is not, the report shows the one after it, too. -/
theorem mainLoop_verdict_tiny :
    let file : File := { content := blank single, pos := some 0 }
    let loop := mainLoop 1 (start single (Buffer.zeros 1))
    (reference single).Conforms file (loop.trace (holding 0) ()) ∧
      (reference single).Loses file (loop.trace (holding 1) ()) :=
  ⟨(mainLoop_verdict single nofun 1 (Buffer.zeros 1) 0 (holding 0) ()).1.mp ⟨_, _, rfl⟩,
    (mainLoop_verdict single nofun 1 (Buffer.zeros 1) 0 (holding 1) ()).2.1.mp rfl⟩

/-- A right file is not complained of, whatever is drawn. -/
theorem mainLoop_accepts (hsafe : c.Safe) (numops : Nat) (originalBuf : Buffer c.maxfilelen)
    (pos : Nat) (draws : List Nat) : ∃ res s', (mainLoop numops (start c originalBuf)).run serving
      ({ content := blank c, pos := some pos }, draws) = some (.ok res, s') := by
  have hjudges := judges_mainLoop hsafe numops originalBuf pos
  obtain ⟨res, s', -, hrun, -⟩ := Prog.Judges.accepts hjudges serving_honest
    (s := ({ content := blank c, pos := some pos }, draws)) rfl
  exact ⟨res, s', hrun⟩

-- ---------------------------------------------------------------------------
-- Without undefined behaviour
-- ---------------------------------------------------------------------------

theorem Buffer.clear?_eq_none {n : Nat} {b : Buffer n} {offset size : Nat} (ho : offset ≤ n)
    (h : n < offset + size) : b.clear? offset size = none := by
  induction size generalizing b offset with
  | zero => omega
  | succ size ih =>
    by_cases hlt : offset < n
    · obtain ⟨b₁, hput, -⟩ := @Buffer.put?_eq n b offset hlt 0
      simp [clear?, hput, @ih b₁ (offset + 1) (by omega) (by omega)]
    · simp [clear?, put?, hlt]

theorem breaks_ask {σ : Type} {call : Call} {f : fsxSig.Reply call → Op c β} {r : File}
    {h : Handler fsxSig σ} {s : σ} (he : r.replies call (h call s).1)
    (hf : (f (h call s).1 st).Breaks (reference c) (r.next call (h call s).1) h (h call s).2) :
    ((ask call >>= f) st).Breaks (reference c) r h s := .call he hf

theorem dotruncate_stuck {size : Nat} (hfile : st.fileSize ≤ c.maxfilelen)
    (hbig : c.maxfilelen < size - size % c.truncbdy) : dotruncate size st = .stuck := by
  have hclear : (if size - size % c.truncbdy > st.fileSize then
      st.goodBuf.clear? st.fileSize (size - size % c.truncbdy - st.fileSize) else some st.goodBuf) =
        none := by
    rw [if_pos (by omega)]
    exact Buffer.clear?_eq_none hfile (by omega)
  simp only [dotruncate, bind_apply, get_apply, Prog.andThen_ok, State.log4_fileSize,
    State.log4_goodBuf, hclear]
  rfl

theorem perform_breaks {r : File} (hlite : c.lite = false) (hsmall : c.smallTruncates = true)
    (hfile : st.fileSize ≤ c.maxfilelen)
    (hbig : c.maxfilelen < c.maxoplen - c.maxoplen % c.truncbdy) :
    (perform 3 st).Breaks (reference c) r serving (r, [c.maxoplen]) := by
  have hstuck := dotruncate_stuck hfile hbig
  have hmod : c.maxoplen % (c.maxoplen + 1) = c.maxoplen := Nat.mod_eq_of_lt (Nat.lt_succ_self _)
  have hop : ¬(¬c.lite = true ∧ 3 = 3 ∧ ¬c.smallTruncates = true) := by simp [hsmall]
  unfold perform
  rw [if_neg hop]
  cases hrandom : c.randomoplen with
  | true =>
    simp only [opSize, hrandom, hlite, bind_apply, if_true, ask_apply, pure_apply,
      Prog.andThen_call, Prog.andThen_ok]
    refine .call trivial ?_
    simp [serving, File.reply, hmod, hstuck, Prog.breaks_stuck]
  | false => simp [opSize, hrandom, hlite, hstuck, Prog.breaks_stuck]

theorem begin_first (rv : Nat) (h : st.testcalls = 0) :
    ∃ st', begin_ rv st = .done (.ok ((), st')) ∧ st'.fileSize = st.fileSize := by
  have himage : decide (c.simulatedopcount > 0 ∧ st.testcalls = c.simulatedopcount) = false :=
    decide_eq_false (by omega)
  have hset : begin_ rv st = (get >>= fun st => set { st with
      testcalls := st.testcalls + 1
      closeopen := if c.closeprob = 0 then st.closeopen else rv / 8 < 2 ^ 28 / c.closeprob
      invl := if c.invlprob = 0 then st.invl else rv / 8 < 2 ^ 28 / c.invlprob }) st := by
    simp only [begin_, bind_apply, get_apply, Prog.andThen_ok, himage]
    rfl
  exact ⟨_, hset, rfl⟩

/-- As long as all replies are as the file should give them, the buffers are never
overrun: exactly if small truncates cannot be larger than the file may be. -/
theorem buffers_safe_iff (c : Settings) : c.Safe ↔ ∀ (σ : Type) (h : Handler fsxSig σ) (s : σ)
    (numops : Nat) (originalBuf : Buffer c.maxfilelen) (pos : Nat),
      (reference c).Conforms { content := blank c, pos := some pos }
          ((mainLoop numops (start c originalBuf)).trace h s) →
        (mainLoop numops (start c originalBuf)).run h s ≠ none := by
  constructor
  · intro hsafe σ h s numops originalBuf pos hconforms
    obtain ⟨-, hok, -⟩ := Prog.Judges.run (judges_mainLoop hsafe numops originalBuf pos) h s
    obtain ⟨res, s', hrun⟩ := hok.mpr hconforms
    simp [hrun]
  · intro hall hlite hsmall
    by_contra hbig
    -- a truncation to the largest size of an operation
    suffices hbreaks : (mainLoop 1 (start c (Buffer.zeros c.maxfilelen))).Breaks (reference c)
        { content := blank c, pos := some 0 } serving
        ({ content := blank c, pos := some 0 }, [3, c.maxoplen]) from
      hall _ serving _ 1 _ 0 hbreaks.2 hbreaks.1
    have hop : 3 % (3 + (!c.lite).toNat + c.mappedWrites.toNat) = 3 := by
      cases c.mappedWrites with
      | true => simp [hlite]
      | false => simp [hlite]
    obtain ⟨st', hbegin, hfile⟩ := @begin_first c (start c (Buffer.zeros c.maxfilelen)) 3 rfl
    have hzero : st'.fileSize ≤ c.maxfilelen := by
      simp [hfile, start, hlite]
    have hperform := @perform_breaks c st' { content := blank c, pos := some 0 } hlite hsmall hzero
      (Nat.lt_of_not_le hbig)
    refine Prog.Breaks.bind (Prog.Breaks.bind ?_ _) _
    refine breaks_ask trivial ?_
    simp only [serving, File.reply, File.next, List.headD_cons, List.tail_cons, hop,
      Prog.andThen_ok, bind_apply, hbegin]
    exact hperform.bind _

end UnreliableFS.Fsx
