import UnreliableFS.Conf
import UnreliableFS.Lexical.Trim

/-!
# The files `ini_parse` accepts

A grammar of lines: a blank line, a comment, a section, an option, or one more
value for the option before. `ini_parse` returns 0 for a file, before the handler
has a say, exactly if its lines are of this grammar, and the options are then those
the lines denote (`iniParse_iff_document`).
-/

namespace UnreliableFS.Conf

open Lexical (Blank Trimmed Clear endsBlank)

def inlineMark (c : UInt8) : Bool := decide (c ∈ INI_INLINE_COMMENT_PREFIXES)

-- ---------------------------------------------------------------------------
-- The grammar
-- ---------------------------------------------------------------------------

/-- A line, with the parts of its text in their order. The newline at its end is
one more blank. -/
inductive Line
  | blank (ws : CStr)
  | comment (ws : CStr) (mark : UInt8) (text : CStr)
  | section_ (ws name rest : CStr)
  | option (ws name ws₁ : CStr) (sep : UInt8) (ws₂ value tail : CStr)
  | more (ws text ws₁ : CStr)

/-- What the lines before have left: the section, and the name of the last option
in it, both as far as they fit into their buffers. -/
structure Place where
  section_ : CStr := []
  prevName : CStr := []

/-- After a value: blanks, or a comment after a blank. -/
def Tail (tail : CStr) : Prop := Blank isspace tail ∨
  ∃ ws mark rest, tail = ws ++ mark :: rest ∧ Blank isspace ws ∧ ws ≠ [] ∧ inlineMark mark = true

/-- A line is indented only where that does not make it one more value. -/
def Indent (pl : Place) (ws : CStr) : Prop := Blank isspace ws ∧ (pl.prevName = [] ∨ ws = [])

structure IsSection (pl : Place) (ws name : CStr) : Prop where
  indent : Indent pl ws
  closed : 93 ∉ name
  clear : Clear isspace inlineMark false name

structure IsOption (pl : Place) (ws name ws₁ : CStr) (sep : UInt8) (ws₂ value tail : CStr) : Prop where
  indent : Indent pl ws
  trimmed : Trimmed isspace name
  head : ∀ c ∈ name.head?, c ∉ INI_START_COMMENT_PREFIXES ∧ c ≠ 91
  noSep : ∀ c ∈ name, c ∉ ascii "=:"
  gap : Blank isspace ws₁ ∧ (name = [] → ws₁ = [])
  nameClear : Clear isspace inlineMark false (name ++ ws₁)
  isSep : sep = 61 ∨ sep = 58
  gap' : Blank isspace ws₂
  valueTrimmed : Trimmed isspace value
  valueClear : Clear isspace inlineMark false (ws₂ ++ value)
  rest : Tail tail

structure IsMore (pl : Place) (ws text ws₁ : CStr) : Prop where
  prevName : pl.prevName ≠ []
  indent : Blank isspace ws ∧ ws ≠ []
  trimmed : Trimmed isspace text ∧ text ≠ []
  head : ∀ c ∈ text.head?, c ∉ INI_START_COMMENT_PREFIXES
  blanks : Blank isspace ws₁

namespace Line

def text : Line → CStr
  | blank ws => ws
  | comment ws mark text => ws ++ mark :: text
  | section_ ws name rest => ws ++ 91 :: (name ++ 93 :: rest)
  | option ws name ws₁ sep ws₂ value tail =>
    ws ++ ((name ++ ws₁) ++ sep :: (ws₂ ++ (value ++ tail)))
  | more ws text ws₁ => ws ++ (text ++ ws₁)

def Fits (pl : Place) : Line → Prop
  | blank ws => Blank isspace ws
  | comment ws mark _ => Blank isspace ws ∧ mark ∈ INI_START_COMMENT_PREFIXES
  | section_ ws name _ => IsSection pl ws name
  | option ws name ws₁ sep ws₂ value tail => IsOption pl ws name ws₁ sep ws₂ value tail
  | more ws text ws₁ => IsMore pl ws text ws₁

def next (pl : Place) : Line → Place
  | blank .. | comment .. | more .. => pl
  | section_ _ name _ => { section_ := strncpy0 name MAX_SECTION }
  | option _ name .. => { pl with prevName := strncpy0 name MAX_NAME }

def options (pl : Place) : Line → List (CStr × CStr × CStr)
  | blank .. | comment .. | section_ .. => []
  | option _ name _ _ _ value _ => [(pl.section_, name, value)]
  | more _ text _ => [(pl.section_, pl.prevName, text)]

end Line

def Document : Place → List Line → Prop
  | _, [] => True
  | pl, line :: lines => line.Fits pl ∧ Document (line.next pl) lines

/-- The options it denotes. -/
def denotes : Place → List Line → List (CStr × CStr × CStr)
  | _, [] => []
  | pl, line :: lines => line.options pl ++ denotes (line.next pl) lines

-- ---------------------------------------------------------------------------
-- Names and values up to a character or a comment
-- ---------------------------------------------------------------------------

theorem findCharsOrComment_iff {chars s a b : CStr} {after : Bool} :
    findCharsOrComment chars after s = (a, b) ↔ s = a ++ b ∧ (∀ c ∈ a, c ∉ chars) ∧
      Clear isspace inlineMark after a ∧
      ∀ c ∈ b.head?, c ∈ chars ∨ (endsBlank isspace after a = true ∧ inlineMark c = true) := by
  induction s generalizing after a b with
  | nil =>
    cases a with
    | nil =>
      cases b with
      | nil => simp [findCharsOrComment, Clear]
      | cons c b => simp [findCharsOrComment]
    | cons c a => simp [findCharsOrComment]
  | cons d s ih =>
    unfold findCharsOrComment
    split
    · rename_i hstop
      cases a with
      | nil =>
        simp only [Prod.mk.injEq, true_and, List.nil_append, List.not_mem_nil, false_implies,
          implies_true, Clear, endsBlank]
        constructor
        · rintro rfl
          simpa [inlineMark] using hstop
        · exact fun h => h.1
      | cons c a =>
        simp only [Prod.mk.injEq, reduceCtorEq, false_and, List.cons_append, List.cons.injEq,
          false_iff]
        rintro ⟨⟨rfl, -⟩, hc, hclear, -⟩
        rcases hstop with h | h
        · exact hc d List.mem_cons_self h
        · exact hclear.1 (by simpa [inlineMark] using h)
    · rename_i hgo
      obtain ⟨hchars, hmark⟩ := not_or.mp hgo
      cases a with
      | nil =>
        simp only [Prod.mk.injEq, reduceCtorEq, false_and, List.nil_append, false_iff]
        rintro ⟨rfl, -, -, h⟩
        exact hgo (by simpa [inlineMark, endsBlank] using h d)
      | cons c a =>
        have ih' := @ih a b (isspace d)
        simp only [Prod.ext_iff] at ih' ⊢
        simp only [List.cons.injEq, List.cons_append, List.forall_mem_cons, Clear, endsBlank]
        constructor
        · rintro ⟨⟨rfl, ha⟩, hb⟩
          obtain ⟨hs, hc, hclear, hb⟩ := ih'.mp ⟨ha, hb⟩
          exact ⟨⟨rfl, hs⟩, ⟨hchars, hc⟩, ⟨by simpa [inlineMark] using hmark, hclear⟩, hb⟩
        · rintro ⟨⟨rfl, hs⟩, ⟨-, hc⟩, ⟨-, hclear⟩, hb⟩
          obtain ⟨ha, hb⟩ := ih'.mpr ⟨hs, hc, hclear, hb⟩
          exact ⟨⟨rfl, ha⟩, hb⟩

-- ---------------------------------------------------------------------------
-- One line
-- ---------------------------------------------------------------------------

abbrev Opts := List (CStr × CStr × CStr)

/-- The text of a line: the first one may start with a byte order mark. -/
def lineText (lineno : Nat) (line : CStr) : CStr :=
  if lineno == 1 && byteOrderMark.isPrefixOf line then line.drop 3 else line

theorem lineStart_blank {lineno : Nat} {line : CStr} (h : Blank isspace (lineText lineno line)) :
    ∃ moved, lineStart lineno line = ([], moved) := by
  have hr : rstrip (lineText lineno line) = [] := List.rdropWhile_eq_nil_iff.mpr h
  have hs : (lineStart lineno line).1 = lskip (rstrip (lineText lineno line)) := rfl
  rw [hr] at hs
  exact ⟨_, Prod.ext hs rfl⟩

theorem lineStart_text {lineno : Nat} {line ws s : CStr} {c : UInt8} (hws : Blank isspace ws)
    (hc : isspace c = false) (h : lineText lineno line = ws ++ c :: s) :
    ∃ moved, lineStart lineno line = (c :: rstrip s, moved) ∧
      (lineno ≠ 1 → (moved = true ↔ ws ≠ [])) := by
  have hr : rstrip (lineText lineno line) = ws ++ c :: rstrip s := by
    rw [h]
    exact Lexical.rdropWhile_append_cons hc
  have hl : lskip (rstrip (lineText lineno line)) = c :: rstrip s := by
    rw [hr]
    exact (Lexical.dropWhile_blank_append hws).trans (List.dropWhile_cons_of_neg (by simp [hc]))
  refine ⟨(lineStart lineno line).2, Prod.ext hl rfl, fun h1 => ?_⟩
  have hm : (lineStart lineno line).2 = ((lineno == 1 && byteOrderMark.isPrefixOf line) ||
      decide ((lskip (rstrip (lineText lineno line))).length <
        (rstrip (lineText lineno line)).length)) := rfl
  rw [hm, hl, hr]
  simp [h1, List.length_pos_iff]

namespace Parser

variable (st : Parser Opts)

def place : Place := ⟨st.section_, st.prevName⟩

def read (line : Line) : Parser Opts where
  section_ := (line.next st.place).section_
  prevName := (line.next st.place).prevName
  error := st.error
  user := st.user ++ line.options st.place

variable {st}

@[simp] theorem place_read (line : Line) : (st.read line).place = line.next st.place := rfl

@[simp] theorem user_read (line : Line) : (st.read line).user = st.user ++ line.options st.place :=
  rfl

theorem handle_record (lineno : Nat) (name value : CStr) : st.handle record lineno name value =
    { st with user := st.user ++ [(st.section_, name, value)] } := rfl

end Parser

theorem mark_not_blank {c : UInt8} (h : c ∈ INI_START_COMMENT_PREFIXES) : isspace c = false := by
  have hc : c = 59 ∨ c = 35 := by simpa [INI_START_COMMENT_PREFIXES, ascii] using h
  rcases hc with rfl | rfl
  · rfl
  · rfl

theorem inlineMark_iff {c : UInt8} : inlineMark c = true ↔ c = 59 := by
  simp [inlineMark, INI_INLINE_COMMENT_PREFIXES, ascii]

theorem inlineMark_not_blank {c : UInt8} (h : isspace c = true) : inlineMark c = false := by
  rw [Bool.eq_false_iff, Ne, inlineMark_iff]
  rintro rfl
  exact absurd h (by decide)

theorem value_read {ws value tail : CStr} (hws : Blank isspace ws) (hv : Trimmed isspace value)
    (hclear : Clear isspace inlineMark false (ws ++ value)) (htail : Tail tail) :
    rstrip (lskip (findCharsOrComment [] false (rstrip (ws ++ (value ++ tail)))).1) = value := by
  rcases htail with htail | ⟨ws', mark, rest, rfl, hws', hne, hmark⟩
  · have hcut : rstrip (ws ++ (value ++ tail)) = (ws ++ value).rdropWhile isspace := by
      rw [← List.append_assoc]
      exact Lexical.rdropWhile_append_blank htail
    have hfind : findCharsOrComment [] false (rstrip (ws ++ (value ++ tail))) =
        (rstrip (ws ++ (value ++ tail)), []) :=
      findCharsOrComment_iff.mpr ⟨by simp, by simp,
        hcut ▸ hclear.of_prefix (List.rdropWhile_prefix isspace _), by simp⟩
    rw [hfind]
    exact (congrArg rstrip (Lexical.trim_eq' hws hv htail)).trans hv.rdropWhile
  · have hmark' : isspace mark = false := by
      rw [inlineMark_iff.mp hmark]
      rfl
    have hcut : rstrip (ws ++ (value ++ (ws' ++ mark :: rest))) =
        (ws ++ (value ++ ws')) ++ mark :: rstrip rest := by
      simp only [← List.append_assoc]
      exact Lexical.rdropWhile_append_cons hmark'
    have hfind : findCharsOrComment [] false ((ws ++ (value ++ ws')) ++ mark :: rstrip rest) =
        (ws ++ (value ++ ws'), mark :: rstrip rest) := by
      refine findCharsOrComment_iff.mpr ⟨rfl, by simp, ?_, ?_⟩
      · rw [← List.append_assoc, Lexical.clear_append]
        exact ⟨hclear, Lexical.clear_of_blank (fun _ => inlineMark_not_blank) hws'⟩
      · have hend : endsBlank isspace false (ws ++ (value ++ ws')) = true := by
          rw [← List.append_assoc, Lexical.endsBlank_append]
          exact Lexical.endsBlank_of_blank hws' hne
        simp [hend, hmark]
    rw [hcut, hfind]
    exact Lexical.trim_eq hws hv hws'

theorem exists_value (s : CStr) : ∃ ws value tail, s = ws ++ (value ++ tail) ∧ Blank isspace ws ∧
    Trimmed isspace value ∧ Clear isspace inlineMark false (ws ++ value) ∧ Tail tail := by
  obtain ⟨⟨a, b⟩, hfind⟩ : ∃ ab, findCharsOrComment [] false s = ab := ⟨_, rfl⟩
  obtain ⟨rfl, -, hclear, hstop⟩ := findCharsOrComment_iff.mp hfind
  obtain ⟨ws, value, ws', rfl, hws, hv, hws', hend⟩ := Lexical.exists_trim isspace a
  rw [← List.append_assoc, Lexical.clear_append] at hclear
  refine ⟨ws, value, ws' ++ b, by simp, hws, hv, hclear.1, ?_⟩
  cases b with
  | nil =>
    left
    simpa using hws'
  | cons mark rest =>
    obtain ⟨hblank, hmark⟩ := by simpa using hstop mark (by simp)
    refine .inr ⟨ws', mark, rest, rfl, hws', ?_, by simpa using hmark⟩
    intro hnil
    exact Lexical.rdropWhile_ne_of_endsBlank hblank (hend hnil)

theorem rstrip_cons {c : UInt8} {s : CStr} (hc : isspace c = false) :
    rstrip (c :: s) = c :: rstrip s := Lexical.rdropWhile_append_cons (s := []) hc

theorem mem_seps {c : UInt8} : c ∈ ascii "=:" ↔ c = 61 ∨ c = 58 := by
  simp [ascii]

theorem sep_not_blank {c : UInt8} (h : c ∈ ascii "=:") : isspace c = false := by
  rcases mem_seps.mp h with rfl | rfl
  · rfl
  · rfl

namespace IsOption

variable {pl : Place} {ws name ws₁ ws₂ value tail : CStr} {sep : UInt8}

theorem starts (h : IsOption pl ws name ws₁ sep ws₂ value tail) (v : CStr) : ∃ c s,
    (name ++ ws₁) ++ sep :: v = c :: s ∧ isspace c = false ∧ c ∉ INI_START_COMMENT_PREFIXES ∧
      c ≠ 91 := by
  cases name with
  | nil =>
    refine ⟨sep, v, by simp [h.gap.2 rfl], sep_not_blank (mem_seps.mpr h.isSep), ?_⟩
    rcases h.isSep with rfl | rfl
    · decide
    · decide
  | cons c name => exact ⟨c, _, rfl, h.trimmed.head c (by simp), h.head c (by simp)⟩

theorem name_read (h : IsOption pl ws name ws₁ sep ws₂ value tail) (v : CStr) :
    findCharsOrComment (ascii "=:") false (rstrip ((name ++ ws₁) ++ sep :: v)) =
      (name ++ ws₁, sep :: rstrip v) := by
  have hsep : sep ∈ ascii "=:" := mem_seps.mpr h.isSep
  refine findCharsOrComment_iff.mpr
    ⟨Lexical.rdropWhile_append_cons (sep_not_blank hsep), ?_, h.nameClear, by simp [hsep]⟩
  intro c hc
  rcases List.mem_append.mp hc with hc | hc
  · exact h.noSep c hc
  · intro hsep
    exact absurd (h.gap.1 c hc) (by simp [sep_not_blank hsep])

end IsOption

section

variable {lineno : Nat} {line : List UInt8} {st : Parser Opts}

theorem not_moved {ws : CStr} {moved : Bool} (h₁ : lineno = 1 → st.prevName = [])
    (hind : Indent st.place ws) (hmoved : lineno ≠ 1 → (moved = true ↔ ws ≠ [])) :
    ¬(st.prevName ≠ [] ∧ moved = true) := by
  rintro ⟨hprev, hm⟩
  have hws : ws ≠ [] := (hmoved fun h => hprev (h₁ h)).mp hm
  exact hind.2.elim hprev hws

theorem parseLine_complete {l : Line} (h₁ : lineno = 1 → st.prevName = [])
    (hf : l.Fits st.place) (ht : lineText lineno (cstr line) = l.text) :
    parseLine record lineno line st = st.read l := by
  cases l with
  | blank ws =>
    have hb : Blank isspace (lineText lineno (cstr line)) := by
      rw [ht]
      exact hf
    obtain ⟨moved, hs⟩ := lineStart_blank hb
    simp [parseLine, hs, Parser.read, Line.next, Line.options, Parser.place]
  | comment ws mark text =>
    obtain ⟨hws, hmark⟩ := hf
    obtain ⟨moved, hs, -⟩ := lineStart_text hws (mark_not_blank hmark) ht
    simp [parseLine, hs, hmark, Parser.read, Line.next, Line.options, Parser.place]
  | section_ ws name rest =>
    obtain ⟨moved, hs, hmoved⟩ := lineStart_text (c := 91) hf.indent.1 rfl ht
    have hfirst := not_moved h₁ hf.indent hmoved
    have hfind : findCharsOrComment [93] false (rstrip (name ++ 93 :: rest)) =
        (name, 93 :: rstrip rest) := by
      refine findCharsOrComment_iff.mpr ⟨Lexical.rdropWhile_append_cons rfl, ?_, hf.clear, by simp⟩
      intro c hc h
      exact hf.closed (List.mem_singleton.mp h ▸ hc)
    have h91 : (91 : UInt8) ∉ INI_START_COMMENT_PREFIXES := by decide
    simp only [parseLine, hs, if_neg h91, if_neg hfirst, hfind]
    simp [Parser.read, Line.next, Line.options]
  | option ws name ws₁ sep ws₂ value tail =>
    obtain ⟨c, s, hcs, hc, hmark, h91⟩ := hf.starts (ws₂ ++ (value ++ tail))
    have ht' : lineText lineno (cstr line) = ws ++ c :: s := by
      rw [ht, ← hcs]
      rfl
    obtain ⟨moved, hs, hmoved⟩ := lineStart_text hf.indent.1 hc ht'
    have hfirst := not_moved h₁ hf.indent hmoved
    have hfind := hf.name_read (ws₂ ++ (value ++ tail))
    have hname : rstrip (name ++ ws₁) = name := Lexical.rdropWhile_trim hf.trimmed hf.gap.1
    rw [hcs, rstrip_cons hc] at hfind
    simp only [parseLine, hs, if_neg hmark, if_neg h91, if_neg hfirst, hfind, if_pos hf.isSep,
      Parser.handle_record, value_read hf.gap' hf.valueTrimmed hf.valueClear hf.rest, hname]
    rfl
  | more ws text ws₁ =>
    obtain ⟨c, s, rfl⟩ := List.exists_cons_of_ne_nil hf.trimmed.2
    have hc : isspace c = false := hf.trimmed.1.head c (by simp)
    obtain ⟨moved, hs, hmoved⟩ := lineStart_text hf.indent.1 hc ht
    have hmark : c ∉ INI_START_COMMENT_PREFIXES := hf.head c (by simp)
    have hfirst : st.prevName ≠ [] ∧ moved = true :=
      ⟨hf.prevName, (hmoved fun h => hf.prevName (h₁ h)).mpr hf.indent.2⟩
    have htext : c :: rstrip (s.append ws₁) = c :: s :=
      (rstrip_cons hc).symm.trans (Lexical.rdropWhile_trim hf.trimmed.1 hf.blanks)
    simp only [parseLine, hs, if_neg hmark, if_pos hfirst, htext, Parser.handle_record]
    rfl

theorem rstrip_cut (s : CStr) : ∃ r, Blank isspace r ∧ s = rstrip s ++ r :=
  ⟨s.rtakeWhile isspace, Lexical.rtakeWhile_blank s, List.rdropWhile_append_rtakeWhile.symm⟩

theorem exists_option {pl : Place} {ws name : CStr} {c sep : UInt8} (hind : Indent pl ws)
    (hc : isspace c = false) (hmark : c ∉ INI_START_COMMENT_PREFIXES) (h91 : c ≠ 91)
    (hfirst : ∀ d ∈ name.head?, d = c) (hname : ∀ d ∈ name, d ∉ ascii "=:")
    (hclear : Clear isspace inlineMark false name) (hsep : sep = 61 ∨ sep = 58)
    (rest : CStr) : ∃ l : Line, l.Fits pl ∧ ws ++ (name ++ sep :: rest) = l.text := by
  obtain ⟨ws₂, value, tail, rfl, hws₂, hvalue, hvclear, htail⟩ := exists_value rest
  obtain ⟨htrim, hnil⟩ := Lexical.trimmed_rdropWhile fun d hd => hfirst d hd ▸ hc
  obtain ⟨ws₁, hws₁, hcut⟩ := rstrip_cut name
  refine ⟨.option ws (rstrip name) ws₁ sep ws₂ value tail, ⟨hind, htrim, ?_, ?_, ⟨hws₁, ?_⟩, ?_,
    hsep, hws₂, hvalue, hvclear, htail⟩, ?_⟩
  · intro d hd
    have hd' : d = c := by
      refine hfirst d ?_
      rw [hcut]
      simp [List.head?_append, Option.mem_def.mp hd]
    exact hd' ▸ ⟨hmark, h91⟩
  · intro d hd
    exact hname d ((List.rdropWhile_prefix isspace name).subset hd)
  · intro hr
    rw [hr, List.nil_append] at hcut
    exact hcut.symm.trans (hnil hr)
  · rwa [← hcut]
  · rw [Line.text, ← hcut]

theorem parseLine_sound (hl : 0 < lineno) (h₁ : lineno = 1 → st.prevName = [])
    (h : (parseLine record lineno line st).error = 0) :
    ∃ l : Line, l.Fits st.place ∧ lineText lineno (cstr line) = l.text := by
  by_cases hb : Blank isspace (lineText lineno (cstr line))
  · exact ⟨.blank _, hb, rfl⟩
  · obtain ⟨ws, c, s, ht, hws, hc⟩ := Lexical.exists_first hb
    obtain ⟨moved, hs, hmoved⟩ := lineStart_text hws hc ht
    obtain ⟨r, hr, hcut⟩ := rstrip_cut s
    rw [ht]
    by_cases hmark : c ∈ INI_START_COMMENT_PREFIXES
    · exact ⟨.comment ws c s, ⟨hws, hmark⟩, rfl⟩
    by_cases hfirst : st.prevName ≠ [] ∧ moved = true
    · have hne : ws ≠ [] := (hmoved fun h => hfirst.1 (h₁ h)).mp hfirst.2
      obtain ⟨htrim, -⟩ := @Lexical.trimmed_rdropWhile _ isspace (c :: s) (by simpa using hc)
      rw [show (c :: s).rdropWhile isspace = c :: rstrip s from rstrip_cons hc] at htrim
      refine ⟨.more ws (c :: rstrip s) r, ⟨hfirst.1, ⟨hws, hne⟩, ⟨htrim, List.cons_ne_nil _ _⟩,
        by simpa using hmark, hr⟩, ?_⟩
      rw [Line.text, List.cons_append, ← hcut]
    have hind : Indent st.place ws := by
      refine ⟨hws, or_iff_not_imp_left.mpr fun hp => ?_⟩
      by_contra hne
      exact hfirst ⟨hp, (hmoved fun h => hp (h₁ h)).mpr hne⟩
    by_cases h91 : c = 91
    · subst h91
      obtain ⟨⟨name, b⟩, hfind⟩ : ∃ ab, findCharsOrComment [93] false (rstrip s) = ab := ⟨_, rfl⟩
      obtain ⟨hsplit, hclosed, hclear, -⟩ := findCharsOrComment_iff.mp hfind
      simp only [parseLine, hs, if_neg hmark, if_neg hfirst, if_pos, hfind] at h
      split at h
      · rename_i rest heq
        obtain ⟨rfl, rfl⟩ := Prod.mk.inj heq
        refine ⟨.section_ ws name (rest ++ r), ⟨hind, ?_, hclear⟩, ?_⟩
        · exact fun h93 => hclosed 93 h93 (List.mem_singleton.mpr rfl)
        · rw [hcut, hsplit]
          simp [Line.text]
      · exact absurd h (Parser.fail_error _ hl)
    · obtain ⟨⟨name, b⟩, hfind⟩ : ∃ ab, findCharsOrComment (ascii "=:") false (c :: rstrip s) = ab :=
        ⟨_, rfl⟩
      obtain ⟨hsplit, hnoSep, hclear, -⟩ := findCharsOrComment_iff.mp hfind
      simp only [parseLine, hs, if_neg hmark, if_neg hfirst, if_neg h91, hfind] at h
      split at h
      · rename_i sep rest heq
        obtain ⟨rfl, rfl⟩ := Prod.mk.inj heq
        split at h
        · rename_i hsep
          have hhead : ∀ d ∈ name.head?, d = c := by
            intro d hd
            have h := congrArg List.head? hsplit
            rw [List.head?_append, Option.mem_def.mp hd] at h
            exact (Option.some.inj h).symm
          obtain ⟨l, hf, htext⟩ :=
            exists_option hind hc hmark h91 hhead hnoSep hclear hsep (rest ++ r)
          refine ⟨l, hf, htext ▸ ?_⟩
          rw [hcut, ← List.cons_append, hsplit]
          simp
        · exact absurd h (Parser.fail_error _ hl)
      · exact absurd h (Parser.fail_error _ hl)

end

-- ---------------------------------------------------------------------------
-- A whole file
-- ---------------------------------------------------------------------------

def lineTexts : Nat → List (List UInt8) → List CStr
  | _, [] => []
  | lineno, piece :: pieces => lineText lineno (cstr piece) :: lineTexts (lineno + 1) pieces

theorem parseLines_error {υ : Type} {handler : Handler υ} {lineno : Nat} (hl : 0 < lineno)
    (pieces : List (List UInt8)) (st : Parser υ)
    (h : (parseLines handler lineno pieces st).error = 0) : st.error = 0 := by
  have kept : Kept handler handler fun st st' => st = st' ∧ st.error ≠ 0 :=
    { prevName_eq := fun h => h.1 ▸ rfl
      fail := fun _ hl h => ⟨h.1 ▸ rfl, Parser.fail_error _ hl⟩
      handle := by
        rintro st _ lineno name value hl ⟨rfl, h⟩
        refine ⟨rfl, ?_⟩
        rw [Parser.handle_eq]
        split
        · exact Parser.fail_error _ hl
        · exact h
      enter := fun _ h => ⟨h.1 ▸ rfl, h.2⟩
      named := fun _ h => ⟨h.1 ▸ rfl, h.2⟩ }
  by_contra hne
  exact (@Kept.parseLines _ _ _ _ _ st st _ kept hl pieces ⟨rfl, hne⟩).2 h

section

variable {lineno : Nat} {pieces : List (List UInt8)} {st : Parser Opts}

theorem parseLines_complete (hl : 0 < lineno) (h₁ : lineno = 1 → st.prevName = [])
    {lines : List Line} (ht : lineTexts lineno pieces = lines.map Line.text)
    (hd : Document st.place lines) :
    (parseLines record lineno pieces st).error = st.error ∧
      (parseLines record lineno pieces st).user = st.user ++ denotes st.place lines := by
  induction pieces generalizing lineno st lines with
  | nil =>
    cases lines with
    | nil => simp [parseLines, denotes]
    | cons l lines => simp [lineTexts] at ht
  | cons piece pieces ih =>
    cases lines with
    | nil => simp [lineTexts] at ht
    | cons l lines =>
      obtain ⟨htext, htexts⟩ := List.cons.inj ht
      have hread := parseLine_complete h₁ hd.1 htext
      obtain ⟨herror, huser⟩ := @ih _ (st.read l) (Nat.succ_pos lineno) (by omega) lines htexts hd.2
      rw [parseLines, hread]
      refine ⟨herror, huser.trans ?_⟩
      simp [denotes]

theorem parseLines_sound (hl : 0 < lineno) (h₁ : lineno = 1 → st.prevName = [])
    (h : (parseLines record lineno pieces st).error = 0) :
    ∃ lines : List Line, lineTexts lineno pieces = lines.map Line.text ∧
      Document st.place lines := by
  induction pieces generalizing lineno st with
  | nil => exact ⟨[], rfl, trivial⟩
  | cons piece pieces ih =>
    obtain ⟨l, hf, htext⟩ := parseLine_sound hl h₁ (parseLines_error (Nat.succ_pos lineno) pieces _ h)
    have hread := parseLine_complete h₁ hf htext
    rw [parseLines, hread] at h
    obtain ⟨lines, htexts, hd⟩ := @ih _ (st.read l) (Nat.succ_pos lineno) (by omega) h
    exact ⟨l :: lines, by simp [lineTexts, htext, htexts], hf, hd⟩

end

/-- The lines of a file, in the grammar. -/
def IsDocument (bytes : List UInt8) (lines : List Line) : Prop :=
  lineTexts 1 (fgetsLines [] bytes) = lines.map Line.text ∧ Document {} lines

theorem IsDocument.options {bytes : List UInt8} {lines : List Line} (h : IsDocument bytes lines) :
    iniParse record (some bytes) [] = (0, denotes {} lines) := by
  obtain ⟨herror, huser⟩ := @parseLines_complete 1 _ { user := [] } Nat.one_pos (fun _ => rfl) _
    h.1 h.2
  simp only [iniParse, herror, huser]
  rfl

theorem exists_isDocument {bytes : List UInt8} (h : (iniParse record (some bytes) []).1 = 0) :
    ∃ lines, IsDocument bytes lines :=
  @parseLines_sound 1 _ { user := [] } Nat.one_pos (fun _ => rfl) (by simpa [iniParse] using h)

/-- `ini_parse` accepts exactly the files whose lines are of the grammar and whose
options the handler accepts, and hands the handler what the lines denote. -/
theorem iniParse_iff_document {υ : Type} (handler : Handler υ) (bytes : List UInt8)
    (user user' : υ) : iniParse handler (some bytes) user = (0, user') ↔ ∃ lines,
      IsDocument bytes lines ∧ Accepts handler user (denotes {} lines) ∧
        user' = (denotes {} lines).foldl (deliver handler) user := by
  rw [Prod.ext_iff, iniParse_eq_zero, iniParse_user]
  constructor
  · rintro ⟨⟨hzero, haccepts⟩, rfl⟩
    obtain ⟨lines, hlines⟩ := exists_isDocument hzero
    have hopts : iniOptions bytes = denotes {} lines := congrArg Prod.snd hlines.options
    exact ⟨lines, hlines, hopts ▸ haccepts, by rw [hopts]⟩
  · rintro ⟨lines, hlines, haccepts, rfl⟩
    have hopts : iniOptions bytes = denotes {} lines := congrArg Prod.snd hlines.options
    exact ⟨⟨congrArg Prod.fst hlines.options, hopts ▸ haccepts⟩, by rw [hopts]⟩

-- ---------------------------------------------------------------------------
-- Lines written one after the other
-- ---------------------------------------------------------------------------

structure OneLine (text : CStr) : Prop where
  ends : ∃ s, text = s ++ [newline] ∧ newline ∉ s
  noNul : 0 ∉ text
  length : text.length < INI_MAX_LINE

theorem fgetsLines_append (cur s rest : List UInt8) (hs : newline ∉ s)
    (hlen : cur.length + s.length + 1 < INI_MAX_LINE) :
    fgetsLines cur (s ++ newline :: rest) = (cur ++ s ++ [newline]) :: fgetsLines [] rest := by
  induction s generalizing cur with
  | nil => simp [fgetsLines]
  | cons c s ih =>
    have hs' : c ≠ newline ∧ newline ∉ s := by simpa [eq_comm] using hs
    simp only [List.length_cons] at hlen
    have hgo : ¬(c = newline ∨ cur.length + 2 = INI_MAX_LINE) := by
      rintro (h | h)
      · exact hs'.1 h
      · omega
    have h := ih (cur ++ [c]) hs'.2 (by simp only [List.length_append, List.length_singleton]; omega)
    simp only [List.cons_append, fgetsLines, if_neg hgo, h]
    simp

theorem fgetsLines_flatten {texts : List CStr} (h : ∀ t ∈ texts, OneLine t) :
    fgetsLines [] texts.flatten = texts := by
  induction texts with
  | nil => rfl
  | cons t texts ih =>
    obtain ⟨ht, htexts⟩ := List.forall_mem_cons.mp h
    obtain ⟨s, rfl, hs⟩ := ht.ends
    have hlen : s.length + 1 < INI_MAX_LINE := by simpa using ht.length
    have hflat : ((s ++ [newline]) :: texts).flatten = s ++ newline :: texts.flatten := by simp
    rw [hflat, fgetsLines_append [] s _ hs (by simpa using hlen), ih htexts]
    simp

theorem lineTexts_eq {texts : List CStr} {lineno : Nat} (hnul : ∀ t ∈ texts, 0 ∉ t)
    (hbom : lineno = 1 → ∀ t ∈ texts.head?, ¬byteOrderMark <+: t) (hl : 0 < lineno) :
    lineTexts lineno texts = texts := by
  induction texts generalizing lineno with
  | nil => rfl
  | cons t texts ih =>
    obtain ⟨ht, htexts⟩ := List.forall_mem_cons.mp hnul
    have hcstr : cstr t = t := by
      refine List.takeWhile_eq_self_iff.mpr fun c hc => ?_
      simpa using fun (h : c = 0) => ht (h ▸ hc)
    have htext : lineText lineno t = t := by
      refine if_neg fun h => ?_
      obtain ⟨h₁, hb⟩ := Bool.and_eq_true_iff.mp h
      exact hbom (by simpa using h₁) t rfl (List.isPrefixOf_iff_prefix.mp hb)
    rw [lineTexts, hcstr, htext, ih htexts (by omega) (Nat.succ_pos lineno)]

theorem isDocument_flatten {lines : List Line} (h : ∀ l ∈ lines, OneLine l.text)
    (hbom : ∀ l ∈ lines.head?, ¬byteOrderMark <+: l.text) (hd : Document {} lines) :
    IsDocument (lines.map Line.text).flatten lines := by
  refine ⟨?_, hd⟩
  rw [fgetsLines_flatten (List.forall_mem_map.mpr h), lineTexts_eq ?_ ?_ Nat.one_pos]
  · exact List.forall_mem_map.mpr fun l hl => (h l hl).noNul
  · intro _ t ht
    cases lines with
    | nil => simp at ht
    | cons l lines =>
      obtain rfl : l.text = t := by simpa using ht
      exact hbom l rfl

end UnreliableFS.Conf
