import UnreliableFS.Verdict
import UnreliableFS.Interaction.Observed

/-!
# Beginning at a later operation

With `-b` the first operations are only simulated: `good_buf` is kept up to date, the
file is not touched, and its image is written before the first operation that is not
simulated. A run that begins so and one that performs more of its operations agree if
they draw the same numbers: on `good_buf` and the log, and on the file.
-/

namespace UnreliableFS.Fsx

open Interaction Extents Rings

def drawn : (call : Call) → Call.Reply call → Option Nat
  | .random, (r : Nat) => some r
  | _, _ => none

def Settings.beginning (c : Settings) (k : Nat) : Settings := { c with simulatedopcount := k }

variable {c : Settings} {k : Nat} {α β : Type} {st : State c}

def State.recount (k : Nat) (st : State c) : State (c.beginning k) where
  fileSize := st.fileSize
  testcalls := st.testcalls
  goodBuf := st.goodBuf
  originalBuf := st.originalBuf
  oplog := st.oplog
  closeopen := st.closeopen
  invl := st.invl

/-- From the same state on, and with the same numbers drawn, they come to the same
value and state. -/
def Agree (x : Op c α) (y : Op (c.beginning k) α) (st : State c) : Prop :=
  Prog.Agree drawn (fun res res' => res' = (res.1, res.2.recount k)) (x st) (y (st.recount k))

/-- No number is drawn, and the state is left as it is. -/
def Quiet (x : Op c α) (st : State c) : Prop := (x st).Quiet drawn fun res => res.2 = st

section

variable {x : Op c α} {f : α → Op c β} {y : Op (c.beginning k) α} {g : α → Op (c.beginning k) β}

-- ---------------------------------------------------------------------------
-- Code that draws nothing
-- ---------------------------------------------------------------------------

theorem quiet_bind (hx : Quiet x st) (hf : ∀ a, Quiet (f a) st) : Quiet (x >>= f) st := by
  refine Prog.Quiet.andThen hx ?_
  rintro ⟨a, st'⟩ rfl
  exact hf a

theorem quiet_pure (a : α) : Quiet (pure a : Op c α) st := rfl

theorem quiet_get {f : State c → Op c β} (h : Quiet (f st) st) : Quiet (get >>= f) st := h

theorem quiet_ask {call : Call} {f : fsxSig.Reply call → Op c β} (hcall : ∀ x, drawn call x = none)
    (hf : ∀ x, Quiet (f x) st) : Quiet (ask call >>= f) st := fun x => ⟨hcall x, hf x⟩

theorem quiet_inside (o : Option α) : Quiet (inside o : Op c α) st := by
  cases o with
  | none => trivial
  | some a => rfl

theorem quiet_ite {p : Prop} [Decidable p] {x y : Op c α} (hx : Quiet x st) (hy : Quiet y st) :
    Quiet (if p then x else y) st := by
  split
  · exact hx
  · exact hy

theorem quiet_reportFailure (status : Nat) : Quiet (reportFailure status : Op c α) st := by
  unfold Quiet reportFailure saveBuffer
  split
  · exact fun _ => ⟨rfl, trivial⟩
  · split
    · exact fun _ => ⟨rfl, fun _ => ⟨rfl, fun _ => ⟨rfl, fun _ => ⟨rfl, trivial⟩⟩⟩⟩
    · exact fun _ => ⟨rfl, fun _ => ⟨rfl, fun _ => ⟨rfl, trivial⟩⟩⟩

theorem quiet_expect (status : Nat) (ok : Bool) : Quiet (expect status ok : Op c Unit) st :=
  quiet_ite (quiet_pure ()) (quiet_reportFailure status)

theorem quiet_check (status : Nat) (call : Checked) : Quiet (check status call : Op c Unit) st :=
  quiet_ask (fun _ => rfl) fun ok => quiet_expect status ok

theorem quiet_when {b : Bool} {f : Op c Unit} (hf : Quiet f st) : Quiet (when_ b f) st :=
  quiet_ite hf (quiet_pure ())

theorem quiet_unlessSimulated {f : Op c Unit} (hf : Quiet f st) : Quiet (unlessSimulated f) st :=
  quiet_get (quiet_ite (quiet_pure ()) hf)

theorem quiet_checkBuffers (offset : Nat) (temp : List UInt8) :
    Quiet (checkBuffers offset temp : Op c Unit) st := by
  refine quiet_get (quiet_bind (quiet_inside _) fun good => quiet_ite (quiet_pure ()) ?_)
  exact quiet_bind (quiet_inside _) fun _ => quiet_bind (quiet_inside _) fun _ => quiet_reportFailure 110

theorem quiet_checkSize : Quiet (checkSize : Op c Unit) st := by
  refine quiet_get (quiet_ask (fun _ => rfl) fun size => ?_)
  exact quiet_ask (fun _ => rfl) fun sizeBySeek => quiet_expect 120 _

theorem quiet_checkEofpage (offset size : Nat) : Quiet (checkEofpage offset size : Op c Unit) st := by
  refine quiet_get (quiet_ite (quiet_pure ()) (quiet_ask (fun _ => rfl) fun loaded => ?_))
  cases loaded.bytes.dropWhile (· = 0) with
  | nil => exact quiet_pure ()
  | cons first rest => exact quiet_bind (quiet_inside _) fun _ => quiet_reportFailure 205

theorem quiet_readBack (offset size : Nat) : Quiet (readBack offset size : Op c Unit) st := by
  refine quiet_bind (quiet_check 140 _) fun _ => quiet_bind (quiet_inside _) fun _ => ?_
  refine quiet_ask (fun _ => rfl) fun ret => ?_
  cases ret with
  | none => exact quiet_reportFailure 141
  | some temp => exact quiet_bind (quiet_expect 141 _) fun _ => quiet_checkBuffers offset temp

theorem quiet_mapBack (offset size : Nat) : Quiet (mapBack offset size : Op c Unit) st := by
  refine quiet_bind (quiet_check 190 _) fun _ => quiet_bind (quiet_inside _) fun _ => ?_
  refine quiet_ask (fun _ => rfl) fun temp => ?_
  refine quiet_bind (quiet_checkEofpage offset size) fun _ => ?_
  exact quiet_bind (quiet_check 191 _) fun _ => quiet_checkBuffers offset _

theorem quiet_writeOut (offset size : Nat) : Quiet (writeOut offset size : Op c Unit) st := by
  refine quiet_get (quiet_bind (quiet_check 150 _) fun _ => quiet_bind (quiet_inside _) fun data => ?_)
  exact quiet_ask (fun _ => rfl) fun ret => quiet_expect 151 _

theorem quiet_mapStore (offset size : Nat) : Quiet (mapStore offset size : Op c Unit) st := by
  refine quiet_get (quiet_bind (quiet_check 202 _) fun _ => quiet_bind (quiet_inside _) fun data => ?_)
  refine quiet_ask (fun _ => rfl) fun _ => quiet_bind (quiet_when (quiet_check 203 _)) fun _ => ?_
  exact quiet_bind (quiet_checkEofpage offset size) fun _ => quiet_check 204 _

theorem quiet_mapOut (curFilesize offset size : Nat) :
    Quiet (mapOut curFilesize offset size : Op c Unit) st := by
  refine quiet_get (quiet_ite (quiet_ask (fun _ => rfl) fun ok => ?_) (quiet_mapStore offset size))
  exact quiet_ite (quiet_mapStore offset size) trivial

theorem quiet_writefileimage : Quiet (writefileimage : Op c Unit) st := by
  refine quiet_get (quiet_bind (quiet_check 171 _) fun _ => quiet_bind (quiet_inside _) fun data => ?_)
  refine quiet_ask (fun _ => rfl) fun ret => quiet_bind (quiet_expect 172 _) fun _ => ?_
  exact quiet_when (quiet_check 173 _)

theorem quiet_docloseopen : Quiet (docloseopen : Op c Unit) st :=
  quiet_unlessSimulated (quiet_bind (quiet_check 180 _) fun _ => quiet_check 181 _)

theorem quiet_doinvl : Quiet (doinvl : Op c Unit) st := by
  refine quiet_get (quiet_ite (quiet_pure ()) (quiet_unlessSimulated ?_))
  refine quiet_bind (quiet_check 205 _) fun _ => quiet_bind (quiet_check 206 _) fun _ => ?_
  exact quiet_check 207 _

theorem quiet_finish : Quiet (finish : Op c Unit) st := by
  refine quiet_bind (quiet_when (quiet_unlessSimulated quiet_checkSize)) fun _ => quiet_get ?_
  exact quiet_bind (quiet_when quiet_doinvl) fun _ => quiet_when quiet_docloseopen

-- ---------------------------------------------------------------------------
-- Code that agrees
-- ---------------------------------------------------------------------------

theorem agree_bind (hx : Agree x y st) (hf : ∀ a st', Agree (f a) (g a) st') :
    Agree (x >>= f) (y >>= g) st := by
  refine Prog.Agree.andThen hx ?_
  rintro ⟨a, st'⟩ _ rfl
  exact hf a st'

theorem agree_pure (a : α) : Agree (pure a : Op c α) (pure a : Op (c.beginning k) α) st :=
  Prog.agree_done rfl

theorem agree_get {f : State c → Op c β} {g : State (c.beginning k) → Op (c.beginning k) β}
    (h : Agree (f st) (g (st.recount k)) st) : Agree (get >>= f) (get >>= g) st := h

theorem agree_set (st' : State c) : Agree (set st') (set (st'.recount k)) st := Prog.agree_done rfl

theorem agree_random {f : Nat → Op c β} {g : Nat → Op (c.beginning k) β}
    (h : ∀ r, Agree (f r) (g r) st) :
    Agree ((ask .random : Op c Nat) >>= f) ((ask .random : Op (c.beginning k) Nat) >>= g) st := by
  refine Prog.agree_call (fun r => ⟨r, rfl⟩) fun r r' heq => ?_
  obtain rfl : r = r' := Option.some.inj heq
  exact h r

theorem agree_quiet {x : Op c Unit} {y : Op (c.beginning k) Unit} (hx : Quiet x st)
    (hy : Quiet y (st.recount k)) : Agree x y st := by
  refine Prog.agree_quiet hx hy ?_
  rintro ⟨_, _⟩ ⟨_, _⟩ rfl rfl
  rfl

theorem agree_inside (o : Option α) :
    Agree (inside o : Op c α) (inside o : Op (c.beginning k) α) st := by
  cases o with
  | none => exact fun _ _ _ _ _ _ h => by cases h
  | some a => exact Prog.agree_done rfl

theorem agree_ite {p : Prop} [Decidable p] {x' : Op c α} {y' : Op (c.beginning k) α}
    (hx : Agree x y st) (hx' : Agree x' y' st) :
    Agree (if p then x else x') (if p then y else y') st := by
  split
  · exact hx
  · exact hx'

theorem log4_recount (operation : Operation) (arg0 arg1 arg2 : Nat) :
    (st.recount k).log4 operation arg0 arg1 arg2 = (st.log4 operation arg0 arg1 arg2).recount k := by
  rcases st with ⟨fileSize, testcalls, goodBuf, originalBuf, oplog, closeopen, invl⟩
  cases closeopen with
  | true => cases invl <;> rfl
  | false => cases invl <;> rfl

theorem agree_logged (operation : Operation) (arg0 arg1 arg2 : Nat) :
    Agree (k := k) (logged operation arg0 arg1 arg2) (logged operation arg0 arg1 arg2) st := by
  refine agree_get ?_
  rw [log4_recount]
  exact agree_set _

/-- Whether an operation is simulated makes no difference if it draws nothing. -/
theorem agree_unlessSimulated {x : Op c Unit} {y : Op (c.beginning k) Unit} (hx : Quiet x st)
    (hy : Quiet y (st.recount k)) : Agree (unlessSimulated x) (unlessSimulated y) st :=
  agree_quiet (quiet_unlessSimulated hx) (quiet_unlessSimulated hy)

end

-- ---------------------------------------------------------------------------
-- Operations
-- ---------------------------------------------------------------------------

variable {offset size : Nat}

theorem agree_doread : Agree (k := k) (doread offset size) (doread offset size) st := by
  refine agree_get (agree_ite (agree_logged _ _ _ _) (agree_bind (agree_logged _ _ _ _) fun _ st' => ?_))
  exact agree_unlessSimulated (quiet_readBack _ _) (quiet_readBack _ _)

theorem agree_domapread : Agree (k := k) (domapread offset size) (domapread offset size) st := by
  refine agree_get (agree_ite (agree_logged _ _ _ _) (agree_bind (agree_logged _ _ _ _) fun _ st' => ?_))
  exact agree_unlessSimulated (quiet_mapBack _ _) (quiet_mapBack _ _)

theorem agree_generate (status : Nat) :
    Agree (k := k) (generate status offset size) (generate status offset size) st := by
  refine agree_get (agree_bind (agree_inside _) fun good st₁ => agree_ite ?_ (agree_set _))
  refine agree_bind (agree_inside _) fun good₁ st₂ => agree_bind (agree_set _) fun _ st₃ => ?_
  exact agree_ite (agree_quiet (quiet_reportFailure _) (quiet_reportFailure _)) (agree_pure ())

theorem agree_dowrite : Agree (k := k) (dowrite offset size) (dowrite offset size) st := by
  refine agree_ite (agree_logged _ _ _ _) (agree_get (agree_bind (agree_logged _ _ _ _) fun _ st₁ => ?_))
  refine agree_bind (agree_generate 149) fun _ st₂ => ?_
  exact agree_unlessSimulated (quiet_writeOut _ _) (quiet_writeOut _ _)

theorem agree_domapwrite : Agree (k := k) (domapwrite offset size) (domapwrite offset size) st := by
  refine agree_ite (agree_logged _ _ _ _) (agree_get (agree_bind (agree_logged _ _ _ _) fun _ st₁ => ?_))
  refine agree_bind (agree_generate 200) fun _ st₂ => ?_
  exact agree_unlessSimulated (quiet_mapOut _ _ _) (quiet_mapOut _ _ _)

theorem agree_dotruncate : Agree (k := k) (dotruncate size) (dotruncate size) st := by
  refine agree_get ?_
  dsimp only
  rw [log4_recount]
  refine agree_bind (agree_inside _) fun good st₁ => agree_bind (agree_set _) fun _ st₂ => ?_
  exact agree_unlessSimulated (quiet_check _ _) (quiet_check _ _)

-- ---------------------------------------------------------------------------
-- A test
-- ---------------------------------------------------------------------------

theorem agree_begin (rv : Nat) : Agree (k := k) (begin_ rv) (begin_ rv) st := by
  refine agree_get (agree_bind (agree_quiet ?_ ?_) fun _ st₁ => agree_set _)
  · exact quiet_when quiet_writefileimage
  · exact quiet_when quiet_writefileimage

theorem agree_opSize : Agree (k := k) opSize opSize st :=
  agree_ite (agree_random fun _ => agree_pure _) (agree_pure _)

theorem agree_writeAtRandom (mapped : Bool) :
    Agree (k := k) (writeAtRandom mapped size) (writeAtRandom mapped size) st :=
  agree_random fun _ => agree_ite agree_domapwrite agree_dowrite

theorem agree_readAtRandom (mapped : Bool) :
    Agree (k := k) (readAtRandom mapped size) (readAtRandom mapped size) st :=
  agree_random fun _ => agree_get (agree_ite agree_domapread agree_doread)

theorem agree_perform (op : Nat) : Agree (k := k) (perform op) (perform op) st := by
  refine agree_ite (agree_random fun _ => agree_dotruncate) ?_
  refine agree_bind agree_opSize fun size st₁ => agree_ite agree_dotruncate ?_
  refine agree_ite (agree_writeAtRandom false) ?_
  exact agree_ite (agree_writeAtRandom true) (agree_readAtRandom _)

theorem agree_test : Agree (k := k) test test st := by
  refine agree_random fun rv => agree_bind (agree_begin rv) fun _ st₁ => ?_
  exact agree_bind (agree_perform _) fun _ st₂ => agree_quiet quiet_finish quiet_finish

theorem agree_tests (n : Nat) : Agree (k := k) (tests n) (tests n) st := by
  induction n generalizing st with
  | zero => exact agree_pure ()
  | succ n ih => exact agree_bind agree_test fun _ _ => ih

theorem agree_mainLoop (numops : Nat) : Agree (k := k) (mainLoop numops) (mainLoop numops) st :=
  agree_bind (agree_tests numops) fun _ _ => agree_quiet (quiet_check _ _) (quiet_check _ _)

-- ---------------------------------------------------------------------------
-- Whole runs
-- ---------------------------------------------------------------------------

/-- Two runs that come to a good end and draw the same numbers, but begin at
different operations, end with the same `good_buf`, log and file. -/
theorem mainLoop_replay {σ τ : Type} (c : Settings) (hsafe : c.Safe) (k numops : Nat)
    (hbegun : c.simulatedopcount < numops) (hbegun' : k < numops) (originalBuf : Buffer c.maxfilelen)
    (pos pos' : Nat) (h : Handler fsxSig σ) (g : Handler fsxSig τ) (s s' : σ) (t t' : τ)
    (res : Unit × State c) (res' : Unit × State (c.beginning k))
    (hrun : (mainLoop numops (start c originalBuf)).run h s = some (.ok res, s'))
    (hrun' : (mainLoop numops (start (c.beginning k) originalBuf)).run g t = some (.ok res', t'))
    (hdrawn : observed drawn ((mainLoop numops (start c originalBuf)).trace h s) =
      observed drawn ((mainLoop numops (start (c.beginning k) originalBuf)).trace g t)) :
    res'.2 = res.2.recount k ∧
      ((reference c).after { content := blank c, pos := some pos }
          ((mainLoop numops (start c originalBuf)).trace h s)).content =
        ((reference (c.beginning k)).after { content := blank (c.beginning k), pos := some pos' }
          ((mainLoop numops (start (c.beginning k) originalBuf)).trace g t)).content := by
  have hstate : res' = (res.1, res.2.recount k) :=
    Prog.Agree.run (agree_mainLoop (k := k) numops) hrun hrun' hdrawn
  obtain ⟨-, -, hcontent, -⟩ := Prog.Judges.run (judges_mainLoop hsafe numops originalBuf pos) h s
  obtain ⟨-, -, hcontent', -⟩ := Prog.Judges.run
    (@judges_mainLoop (c.beginning k) hsafe numops originalBuf pos') g t
  have himage := (hcontent _ _ hrun).trans (if_pos (.inr hbegun))
  have himage' := (hcontent' _ _ hrun').trans (if_pos (.inr hbegun'))
  rw [hstate] at himage'
  exact ⟨congrArg Prod.snd hstate, himage.trans himage'.symm⟩

theorem mainLoop_replay_tiny : ∃ (res : Unit × State tiny) (res' : Unit × State (tiny.beginning 1)),
    res'.2 = res.2.recount 1 ∧
      ((reference tiny).after { content := blank tiny, pos := some 0 }
          ((mainLoop 2 (start tiny (Buffer.zeros 4))).trace serving
            ({ content := [], pos := some 0 }, [1, 3, 0, 3, 2]))).content =
        ((reference (tiny.beginning 1)).after { content := blank (tiny.beginning 1), pos := some 0 }
          ((mainLoop 2 (start (tiny.beginning 1) (Buffer.zeros 4))).trace serving
            ({ content := [], pos := some 0 }, [1, 3, 0, 3, 2]))).content := by
  obtain ⟨res, s', hrun⟩ := @mainLoop_accepts tiny (fun _ _ => by decide) 2 (Buffer.zeros 4) 0
    [1, 3, 0, 3, 2]
  obtain ⟨res', t', hrun'⟩ := @mainLoop_accepts (tiny.beginning 1) (fun _ _ => by decide) 2
    (Buffer.zeros 4) 0 [1, 3, 0, 3, 2]
  exact ⟨res, res', mainLoop_replay tiny (fun _ _ => by decide) 1 2 (by decide) (by decide)
    (Buffer.zeros 4) 0 0 serving serving _ s' _ t' res res' hrun hrun' (by decide +kernel)⟩

end UnreliableFS.Fsx
