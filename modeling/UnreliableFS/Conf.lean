import UnreliableFS.CString

/-!
# The INI parser of `conf.c`

`ini_parse` with the compile-time settings of `conf.h`: lines are read into a
stack buffer of `INI_MAX_LINE` bytes, continuation lines, a byte order mark and
inline comments are allowed, and parsing goes on after an error. The handler is
any function of its user data, so what `ini_parse` does to the user data is a
function of the bytes of the file.
-/

namespace UnreliableFS.Conf

def INI_MAX_LINE : Nat := 200
def MAX_SECTION : Nat := 50
def MAX_NAME : Nat := 50
def INI_START_COMMENT_PREFIXES : CStr := ascii ";#"
def INI_INLINE_COMMENT_PREFIXES : CStr := ascii ";"
def byteOrderMark : CStr := [0xEF, 0xBB, 0xBF]

/-- What repeated `fgets(line, INI_MAX_LINE, file)` delivers: pieces that end
after a newline, when the buffer is full, or at the end of the file. -/
def fgetsLines : List UInt8 → List UInt8 → List (List UInt8)
  | cur, [] => if cur = [] then [] else [cur]
  | cur, c :: rest =>
    if c = newline ∨ cur.length + 2 = INI_MAX_LINE then (cur ++ [c]) :: fgetsLines [] rest
    else fgetsLines (cur ++ [c]) rest

def rstrip (s : CStr) : CStr := (s.reverse.dropWhile isspace).reverse

def lskip (s : CStr) : CStr := s.dropWhile isspace

/-- The string up to the first of `chars` or to an inline comment, which must
follow a space, and what is left of it from there. -/
def findCharsOrComment (chars : CStr) : Bool → CStr → CStr × CStr
  | _, [] => ([], [])
  | wasSpace, c :: s =>
    if c ∈ chars ∨ (wasSpace ∧ c ∈ INI_INLINE_COMMENT_PREFIXES) then ([], c :: s)
    else ((c :: (findCharsOrComment chars (isspace c) s).1), (findCharsOrComment chars (isspace c) s).2)

def strncpy0 (s : CStr) (size : Nat) : CStr := s.take (size - 1)

/-- Returns nonzero on success, zero on error, with the new user data. -/
abbrev Handler (υ : Type) := υ → CStr → CStr → CStr → Int × υ

structure Parser (υ : Type) where
  section_ : CStr := []
  prevName : CStr := []
  error : Nat := 0
  user : υ

variable {υ : Type} (handler : Handler υ)

/-- `if (!error) error = lineno`. -/
def Parser.fail (st : Parser υ) (lineno : Nat) : Parser υ :=
  { st with error := if st.error = 0 then lineno else st.error }

/-- `if (!HANDLER(user, section, name, value) && !error) error = lineno`. -/
def Parser.handle (st : Parser υ) (lineno : Nat) (name value : CStr) : Parser υ :=
  let (ok, user) := handler st.user st.section_ name value
  let st := { st with user }
  if ok = 0 then st.fail lineno else st

/-- `start` after the byte order mark and the space around the text are cut off,
and whether it is now past `line`. -/
def lineStart (lineno : Nat) (line : CStr) : CStr × Bool :=
  let bom := lineno == 1 && byteOrderMark.isPrefixOf line
  let text := rstrip (if bom then line.drop 3 else line)
  (lskip text, bom || (lskip text).length < text.length)

def parseLine (lineno : Nat) (line : List UInt8) (st : Parser υ) : Parser υ :=
  match lineStart lineno (cstr line) with
  -- strchr finds the terminating NUL too, so an empty line counts as a comment
  | ([], _) => st
  | (c :: rest, moved) =>
    if c ∈ INI_START_COMMENT_PREFIXES then st
    else if st.prevName ≠ [] ∧ moved then st.handle handler lineno st.prevName (c :: rest)
    else if c = 91 then
      match findCharsOrComment [93] false rest with
      | (name, 93 :: _) => { st with section_ := strncpy0 name MAX_SECTION, prevName := [] }
      | _ => st.fail lineno
    else
      match findCharsOrComment (ascii "=:") false (c :: rest) with
      | (name, sep :: value) =>
        if sep = 61 ∨ sep = 58 then
          let name := rstrip name
          let value := rstrip (lskip (findCharsOrComment [] false value).1)
          { st with prevName := strncpy0 name MAX_NAME }.handle handler lineno name value
        else st.fail lineno
      | (_, []) => st.fail lineno

def parseLines : Nat → List (List UInt8) → Parser υ → Parser υ
  | _, [], st => st
  | lineno, line :: lines, st => parseLines (lineno + 1) lines (parseLine handler lineno line st)

/-- `ini_parse`: 0, the number of the first line with an error, or -1 when the
file does not open, with the user data the handler left. -/
def iniParse (file : Option (List UInt8)) (user : υ) : Int × υ :=
  match file with
  | none => (-1, user)
  | some bytes =>
    let st := parseLines handler 1 (fgetsLines [] bytes) { user }
    (st.error, st.user)

def record : Handler (List (CStr × CStr × CStr)) := fun opts s k v => (1, opts ++ [(s, k, v)])

def iniOptions (bytes : List UInt8) : List (CStr × CStr × CStr) :=
  (iniParse record (some bytes) []).2

example : iniOptions (ascii " # c\n[errinj_noop]\nprobability = 70 ; often\n  op_regexp: .*\n") =
    [(ascii "errinj_noop", ascii "probability", ascii "70"),
     (ascii "errinj_noop", ascii "probability", ascii "op_regexp: .*")] := by decide

-- ---------------------------------------------------------------------------
-- Two parsers over one file
-- ---------------------------------------------------------------------------

structure Kept {ω : Type} (handler : Handler υ) (handler' : Handler ω)
    (R : Parser υ → Parser ω → Prop) : Prop where
  prevName_eq : ∀ {st st'}, R st st' → st.prevName = st'.prevName
  fail : ∀ {st st'} lineno, 0 < lineno → R st st' → R (st.fail lineno) (st'.fail lineno)
  handle : ∀ {st st'} lineno name value, 0 < lineno → R st st' →
    R (st.handle handler lineno name value) (st'.handle handler' lineno name value)
  enter : ∀ {st st'} section_, R st st' →
    R { st with section_, prevName := [] } { st' with section_, prevName := [] }
  named : ∀ {st st'} prevName, R st st' → R { st with prevName } { st' with prevName }

namespace Kept

variable {ω : Type} {handler : Handler υ} {handler' : Handler ω} {R : Parser υ → Parser ω → Prop}
  {st : Parser υ} {st' : Parser ω} {lineno : Nat}

theorem parseLine (k : Kept handler handler' R) (hl : 0 < lineno) (line : List UInt8)
    (h : R st st') :
    R (parseLine handler lineno line st) (Conf.parseLine handler' lineno line st') := by
  simp only [Conf.parseLine, k.prevName_eq h]
  split
  · exact h
  · split
    · exact h
    · split
      · exact k.handle lineno _ _ hl h
      · split
        · split
          · exact k.enter _ h
          · exact k.fail lineno hl h
        · split
          · split
            · exact k.handle lineno _ _ hl (k.named _ h)
            · exact k.fail lineno hl h
          · exact k.fail lineno hl h

theorem parseLines (k : Kept handler handler' R) (hl : 0 < lineno) (lines : List (List UInt8))
    (h : R st st') :
    R (parseLines handler lineno lines st) (Conf.parseLines handler' lineno lines st') := by
  induction lines generalizing lineno st st' with
  | nil => exact h
  | cons line lines ih => exact ih (Nat.succ_pos lineno) (k.parseLine hl line h)

end Kept

-- ---------------------------------------------------------------------------
-- The handler sees the options of the file, whatever it answers
-- ---------------------------------------------------------------------------

def deliver (user : υ) (opt : CStr × CStr × CStr) : υ := (handler user opt.1 opt.2.1 opt.2.2).2

def Accepts : υ → List (CStr × CStr × CStr) → Prop
  | _, [] => True
  | user, opt :: opts =>
    (handler user opt.1 opt.2.1 opt.2.2).1 ≠ 0 ∧ Accepts (deliver handler user opt) opts

structure Delivered (user : υ) (st : Parser υ) (rec : Parser (List (CStr × CStr × CStr))) : Prop where
  section_ : st.section_ = rec.section_
  prevName : st.prevName = rec.prevName
  user : st.user = rec.user.foldl (deliver handler) user

structure Judged (user₀ : υ) (st : Parser υ) (rec : Parser (List (CStr × CStr × CStr))) : Prop
    extends Delivered handler user₀ st rec where
  error : st.error = 0 ↔ rec.error = 0 ∧ Accepts handler user₀ rec.user

variable {handler} {user : υ}

theorem accepts_append (opts : List (CStr × CStr × CStr)) (opt : CStr × CStr × CStr) :
    Accepts handler user (opts ++ [opt]) ↔ Accepts handler user opts ∧
      (handler (opts.foldl (deliver handler) user) opt.1 opt.2.1 opt.2.2).1 ≠ 0 := by
  induction opts generalizing user with
  | nil => simp [Accepts]
  | cons o opts ih => simp only [List.cons_append, Accepts, ih, and_assoc, List.foldl_cons]

theorem Parser.fail_error (st : Parser υ) {lineno : Nat} (hl : 0 < lineno) :
    (st.fail lineno).error ≠ 0 := by
  unfold Parser.fail
  dsimp only
  split
  · exact Nat.ne_of_gt hl
  · assumption

theorem Parser.handle_eq (st : Parser υ) (lineno : Nat) (name value : CStr) :
    st.handle handler lineno name value =
      if (handler st.user st.section_ name value).1 = 0 then
        { st with user := deliver handler st.user (st.section_, name, value) }.fail lineno
      else { st with user := deliver handler st.user (st.section_, name, value) } := rfl

theorem judged_kept (user : υ) : Kept handler record (Judged handler user) where
  prevName_eq h := h.prevName
  fail lineno hl h := ⟨⟨h.section_, h.prevName, h.user⟩,
    iff_of_false (Parser.fail_error _ hl) fun hr => Parser.fail_error _ hl hr.1⟩
  enter _ h := ⟨⟨rfl, rfl, h.user⟩, h.error⟩
  named _ h := ⟨⟨h.section_, rfl, h.user⟩, h.error⟩
  handle := by
    intro st rec lineno name value hl h
    have hrec : rec.handle record lineno name value =
        { rec with user := rec.user ++ [(rec.section_, name, value)] } := rfl
    have hu : deliver handler st.user (st.section_, name, value) =
        (rec.user ++ [(rec.section_, name, value)]).foldl (deliver handler) user := by
      rw [List.foldl_append, ← h.user, ← h.section_]
      rfl
    have ha : Accepts handler user (rec.user ++ [(rec.section_, name, value)]) ↔
        Accepts handler user rec.user ∧ (handler st.user st.section_ name value).1 ≠ 0 := by
      rw [accepts_append, ← h.user, ← h.section_]
    rw [hrec, Parser.handle_eq]
    split
    · rename_i hz
      refine ⟨⟨h.section_, h.prevName, hu⟩, iff_of_false (Parser.fail_error _ hl) ?_⟩
      exact fun hr => (ha.mp hr.2).2 hz
    · rename_i hz
      refine ⟨⟨h.section_, h.prevName, hu⟩, h.error.trans ?_⟩
      exact and_congr_right fun _ => ⟨fun h => ha.mpr ⟨h, hz⟩, fun h => (ha.mp h).1⟩

variable (handler) in
theorem judged_parseLines (bytes : List UInt8) (user : υ) : Judged handler user
    (parseLines handler 1 (fgetsLines [] bytes) { user })
    (parseLines record 1 (fgetsLines [] bytes) { user := [] }) :=
  (judged_kept user).parseLines Nat.one_pos _ ⟨⟨rfl, rfl, rfl⟩, by simp [Accepts]⟩

/-- `ini_parse` calls the handler with the options of the file, in order, and
with nothing else: the user data it leaves is a fold over them. -/
theorem iniParse_user (bytes : List UInt8) (user : υ) :
    (iniParse handler (some bytes) user).2 = (iniOptions bytes).foldl (deliver handler) user :=
  (judged_parseLines handler bytes user).user

theorem iniParse_eq_zero (bytes : List UInt8) (user : υ) :
    (iniParse handler (some bytes) user).1 = 0 ↔
      (iniParse record (some bytes) []).1 = 0 ∧ Accepts handler user (iniOptions bytes) := by
  have h := (judged_parseLines handler bytes user).error
  unfold iniOptions iniParse
  simpa only [Int.natCast_eq_zero] using h

theorem iniParse_nonneg (bytes : List UInt8) (user : υ) :
    0 ≤ (iniParse handler (some bytes) user).1 := by
  simp [iniParse]

end UnreliableFS.Conf
