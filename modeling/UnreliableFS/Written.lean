import UnreliableFS.Document
import UnreliableFS.Options
import UnreliableFS.Probability

/-!
# A configuration written down

A list of fault entries as a file, in the form the manual gives: a section for each
entry, and in it the fields as `key = value`. `ini_parse` with the handler of the
daemon gives the list back (`iniParse_write`), so every list whose expressions fit on
a line can be configured.
-/

namespace UnreliableFS

open Conf (Line Place Document IsDocument denotes inlineMark)
open Lexical (Blank Trimmed Clear)

-- ---------------------------------------------------------------------------
-- Numbers
-- ---------------------------------------------------------------------------

def decimal (n : Nat) : CStr := (Nat.toDigits 10 n).map fun c => c.toNat.toUInt8

theorem digit_byte {c : Char} (h : c.isDigit = true) :
    c.toNat.toUInt8.toNat = c.toNat ∧ isdigit c.toNat.toUInt8 = true := by
  have hc : 48 ≤ c.toNat ∧ c.toNat ≤ 57 := Char.isDigit_iff_toNat.mp h
  have hn : c.toNat.toUInt8.toNat = c.toNat := by
    simp only [Nat.toUInt8_eq, UInt8.toNat_ofNat']
    omega
  refine ⟨hn, ?_⟩
  simp [isdigit, UInt8.le_iff_toNat_le, hn, hc]

theorem digitsValue_digits (cs : List Char) (h : ∀ c ∈ cs, c.isDigit = true) (acc : Nat) :
    digitsValue (cs.map fun c => c.toNat.toUInt8) acc = Nat.ofDigitChars 10 cs acc := by
  induction cs generalizing acc with
  | nil => simp [digitsValue]
  | cons c cs ih =>
    obtain ⟨hc, hcs⟩ := List.forall_mem_cons.mp h
    obtain ⟨hn, hd⟩ := digit_byte hc
    simp [digitsValue, hd, hn, ih hcs, Nat.ofDigitChars_cons]

theorem isDigit_toDigits (n : Nat) : ∀ c ∈ Nat.toDigits 10 n, c.isDigit = true :=
  fun _ hc => Nat.isDigit_of_mem_toDigits (by decide) (by decide) hc

theorem decimal_ne_nil (n : Nat) : decimal n ≠ [] := by
  simp [decimal, Nat.toDigits_ne_nil]

theorem isdigit_decimal {n : Nat} {b : UInt8} (h : b ∈ decimal n) : isdigit b = true := by
  obtain ⟨c, hc, rfl⟩ := List.mem_map.mp h
  exact (digit_byte (isDigit_toDigits n c hc)).2

theorem digits_decimal (n : Nat) : digits? (decimal n) = some n := by
  have hall : (decimal n).all isdigit = true := List.all_eq_true.mpr fun _ => isdigit_decimal
  have hv : digitsValue (decimal n) 0 = n :=
    (digitsValue_digits _ (isDigit_toDigits n) 0).trans Nat.ofDigitChars_ten_toDigits
  rw [digits?, if_pos ⟨decimal_ne_nil n, hall⟩, hv]

theorem toUnsigned_decimal {n : Nat} (h : n < 2 ^ 32) : toUnsigned (atoi (decimal n)) = n := by
  have hd : decimal? (decimal n) = some (n : Int) := by
    obtain ⟨b, t, hbt⟩ := List.exists_cons_of_ne_nil (decimal_ne_nil n)
    have hb : isdigit b = true := isdigit_decimal (hbt ▸ List.mem_cons_self)
    have hdigits := digits_decimal n
    rw [hbt] at hdigits ⊢
    unfold decimal?
    split
    · rename_i heq
      rw [(List.cons.inj heq).1] at hb
      exact absurd hb (by decide)
    · rename_i heq
      rw [(List.cons.inj heq).1] at hb
      exact absurd hb (by decide)
    · simp [hdigits]
  have hv := toUnsigned_atoi hd
  omega

-- ---------------------------------------------------------------------------
-- The file of a list
-- ---------------------------------------------------------------------------

def sectionLine (name : CStr) : Line := .section_ [] name [newline]

def optionLine (o : CStr × CStr) : Line := .option [] o.1 [32] 61 [32] o.2 [newline]

def ErrinjConf.options (err : ErrinjConf) : List (CStr × CStr) :=
  (err.opRegexp.toList.map fun r => (ascii "op_regexp", r)) ++
    (err.pathRegexp.toList.map fun r => (ascii "path_regexp", r)) ++
      [(ascii "probability", decimal err.probability), (ascii "duration", decimal err.duration)]

def ErrinjConf.lines (err : ErrinjConf) : List Line :=
  sectionLine (errinjName err.type) :: err.options.map optionLine

def write (errors : List ErrinjConf) : List UInt8 :=
  ((errors.flatMap ErrinjConf.lines).map Line.text).flatten

/-- A value that can stand on a line after its key. -/
structure Fitting (key value : CStr) : Prop where
  trimmed : Trimmed isspace value
  oneLine : newline ∉ value ∧ 0 ∉ value
  clear : Clear isspace inlineMark true value
  length : key.length + value.length + 4 < Conf.INI_MAX_LINE

/-- A list of entries as the daemon can hold it, with expressions that fit. -/
structure Writable (errors : List ErrinjConf) : Prop where
  types : (errors.map ErrinjConf.type).Nodup
  unsigned : ∀ err ∈ errors, err.probability < 2 ^ 32 ∧ err.duration < 2 ^ 32
  opRegexp : ∀ err ∈ errors, ∀ r ∈ err.opRegexp, Fitting (ascii "op_regexp") r
  pathRegexp : ∀ err ∈ errors, ∀ r ∈ err.pathRegexp, Fitting (ascii "path_regexp") r

-- ---------------------------------------------------------------------------
-- Each option is applied to the entry of its section
-- ---------------------------------------------------------------------------

theorem options_applied {err : ErrinjConf} (hp : err.probability < 2 ^ 32)
    (hd : err.duration < 2 ^ 32) : (err.options.map fun o => (errinjName err.type, o)).foldl applyOption
      { type := err.type } = err := by
  obtain ⟨type, op, path, prob, dur⟩ := err
  have hprob : toUnsigned (atoi (decimal prob)) = prob := toUnsigned_decimal hp
  have hdur : toUnsigned (atoi (decimal dur)) = dur := toUnsigned_decimal hd
  cases op with
  | none =>
    cases path with
    | none => simp [ErrinjConf.options, applyOption, setOption, setOptionIn, hprob, hdur, ascii]
    | some p => simp [ErrinjConf.options, applyOption, setOption, setOptionIn, hprob, hdur, ascii]
  | some o =>
    cases path with
    | none => simp [ErrinjConf.options, applyOption, setOption, setOptionIn, hprob, hdur, ascii]
    | some p => simp [ErrinjConf.options, applyOption, setOption, setOptionIn, hprob, hdur, ascii]

theorem deliver_last {cfg : List ErrinjConf} {t : ErrinjType} {err : ErrinjConf} {o : ConfOption}
    (hcfg : ∀ e ∈ cfg, e.type ≠ t) (ht : err.type = t) (ho : errinjTypeByName o.1 = some t) :
    Conf.deliver confOptionHandler (cfg ++ [err]) o = cfg ++ [applyOption err o] := by
  have hw : withEntry t (cfg ++ [err]) = cfg ++ [err] := if_pos (by simp [ht])
  rw [deliver_eq, ho, Option.elim_some, hw, modifyEntry_append hcfg ht]

theorem deliver_new {cfg : List ErrinjConf} {t : ErrinjType} {o : ConfOption}
    (hcfg : ∀ e ∈ cfg, e.type ≠ t) (ho : errinjTypeByName o.1 = some t) :
    Conf.deliver confOptionHandler cfg o = cfg ++ [applyOption { type := t } o] := by
  have hany : ¬cfg.any (·.type = t) := by simpa using hcfg
  rw [deliver_eq, ho, Option.elim_some, withEntry, if_neg hany, modifyEntry_append hcfg rfl]

theorem foldl_deliver {cfg : List ErrinjConf} {t : ErrinjType} {err : ErrinjConf}
    (hcfg : ∀ e ∈ cfg, e.type ≠ t) (ht : err.type = t) {opts : List ConfOption}
    (ho : ∀ o ∈ opts, errinjTypeByName o.1 = some t) :
    opts.foldl (Conf.deliver confOptionHandler) (cfg ++ [err]) =
      cfg ++ [opts.foldl applyOption err] := by
  induction opts generalizing err with
  | nil => rfl
  | cons o opts ih =>
    obtain ⟨ho', hopts⟩ := List.forall_mem_cons.mp ho
    rw [List.foldl_cons, deliver_last hcfg ht ho', ih ((applyOption_type err o).trans ht) hopts,
      List.foldl_cons]

def ErrinjConf.calls (err : ErrinjConf) : List ConfOption :=
  err.options.map fun o => (errinjName err.type, o)

theorem foldl_calls {cfg : List ErrinjConf} {err : ErrinjConf} (hcfg : ∀ e ∈ cfg, e.type ≠ err.type)
    (hp : err.probability < 2 ^ 32) (hd : err.duration < 2 ^ 32) :
    err.calls.foldl (Conf.deliver confOptionHandler) cfg = cfg ++ [err] := by
  have happly := options_applied hp hd
  have hsection : ∀ o ∈ err.calls, errinjTypeByName o.1 = some err.type :=
    List.forall_mem_map.mpr fun _ _ => errinjTypeByName_iff.mpr rfl
  unfold ErrinjConf.calls at hsection ⊢
  cases hopts : err.options.map fun o => (errinjName err.type, o) with
  | nil => simp [ErrinjConf.options] at hopts
  | cons o opts =>
    rw [hopts] at happly hsection
    obtain ⟨ho, hrest⟩ := List.forall_mem_cons.mp hsection
    rw [List.foldl_cons, deliver_new hcfg ho,
      foldl_deliver hcfg (applyOption_type { type := err.type } o) hrest, ← List.foldl_cons, happly]

theorem foldl_flatMap_calls {errors cfg : List ErrinjConf}
    (htypes : ((cfg ++ errors).map ErrinjConf.type).Nodup)
    (hu : ∀ err ∈ errors, err.probability < 2 ^ 32 ∧ err.duration < 2 ^ 32) :
    (errors.flatMap ErrinjConf.calls).foldl (Conf.deliver confOptionHandler) cfg =
      cfg ++ errors := by
  induction errors generalizing cfg with
  | nil => simp
  | cons err errors ih =>
    obtain ⟨⟨hp, hd⟩, hu'⟩ := List.forall_mem_cons.mp hu
    have hcfg : ∀ e ∈ cfg, e.type ≠ err.type := by
      rw [List.map_append, List.map_cons, List.nodup_append] at htypes
      exact fun e he => htypes.2.2 e.type (List.mem_map_of_mem he) err.type List.mem_cons_self
    rw [List.flatMap_cons, List.foldl_append, foldl_calls hcfg hp hd, ih (by simpa using htypes) hu']
    simp

-- ---------------------------------------------------------------------------
-- Its lines are of the grammar
-- ---------------------------------------------------------------------------

theorem errinjName_fits (t : ErrinjType) : 93 ∉ errinjName t ∧ newline ∉ errinjName t ∧
    0 ∉ errinjName t ∧ Clear isspace inlineMark false (errinjName t) ∧
      Conf.strncpy0 (errinjName t) Conf.MAX_SECTION = errinjName t ∧ (errinjName t).length < 50 := by
  cases t <;> decide

theorem optionKeys_fit : ∀ key ∈ optionKeys, key ≠ [] ∧ Trimmed isspace key ∧
    key.head?.all (fun c => decide (c ∉ Conf.INI_START_COMMENT_PREFIXES ∧ c ≠ 91)) = true ∧
      (61 ∉ key ∧ 58 ∉ key ∧ newline ∉ key ∧ 0 ∉ key) ∧
        Clear isspace inlineMark false (key ++ [32]) := by
  decide

theorem fitting_decimal {key : CStr} (hk : key ∈ optionKeys) {n : Nat} (hn : n < 2 ^ 32) :
    Fitting key (decimal n) := by
  have hdigit : ∀ c ∈ decimal n, isspace c = false ∧ c ≠ newline ∧ c ≠ 0 ∧ inlineMark c = false := by
    intro c hc
    have hd := isdigit_decimal hc
    refine ⟨isspace_of_isdigit hd, ?_, ?_, ?_⟩
    · rintro rfl
      exact absurd hd (by decide)
    · rintro rfl
      exact absurd hd (by decide)
    · rw [Bool.eq_false_iff, Ne, Conf.inlineMark_iff]
      rintro rfl
      exact absurd hd (by decide)
  have hlen : (decimal n).length ≤ 10 := by
    rw [decimal, List.length_map, Nat.length_toDigits_le_iff (by decide) (by decide)]
    omega
  have hkey : ∀ key ∈ optionKeys, key.length ≤ 12 := by decide
  refine ⟨⟨?_, ?_⟩, ⟨?_, ?_⟩, ?_, ?_⟩
  · exact fun c hc => (hdigit c (List.mem_of_mem_head? hc)).1
  · exact fun c hc => (hdigit c (List.mem_of_getLast? hc)).1
  · exact fun h => (hdigit _ h).2.1 rfl
  · exact fun h => (hdigit _ h).2.2.1 rfl
  · exact Lexical.clear_of_forall fun c hc => (hdigit c hc).2.2.2
  · have h := hkey key hk
    unfold Conf.INI_MAX_LINE
    omega

theorem Writable.options {errors : List ErrinjConf} (h : Writable errors) {err : ErrinjConf}
    (he : err ∈ errors) : ∀ o ∈ err.options, o.1 ∈ optionKeys ∧ Fitting o.1 o.2 := by
  have hkeys : ascii "op_regexp" ∈ optionKeys ∧ ascii "path_regexp" ∈ optionKeys ∧
      ascii "probability" ∈ optionKeys ∧ ascii "duration" ∈ optionKeys := by decide
  obtain ⟨hop, hpath, hprob, hdur⟩ := hkeys
  simp only [ErrinjConf.options, List.forall_mem_append, List.forall_mem_map, List.forall_mem_cons,
    Option.mem_toList]
  refine ⟨⟨fun r hr => ⟨hop, h.opRegexp err he r hr⟩, fun r hr => ⟨hpath, h.pathRegexp err he r hr⟩⟩,
    ⟨hprob, fitting_decimal hprob (h.unsigned err he).1⟩,
    ⟨hdur, fitting_decimal hdur (h.unsigned err he).2⟩, by simp⟩

theorem sectionLine_fits (t : ErrinjType) (pl : Place) : (sectionLine (errinjName t)).Fits pl ∧
    Conf.OneLine (sectionLine (errinjName t)).text := by
  obtain ⟨hclosed, hnl, hnul, hclear, -, hlen⟩ := errinjName_fits t
  refine ⟨⟨⟨by simp, .inr rfl⟩, hclosed, hclear⟩, ⟨91 :: (errinjName t ++ [93]), ?_, ?_⟩, ?_, ?_⟩
  · simp [sectionLine, Line.text]
  · simpa [newline] using hnl
  · simpa [sectionLine, Line.text, newline] using hnul
  · simp only [sectionLine, Line.text, List.nil_append, List.length_cons, List.length_append,
      List.length_nil, Conf.INI_MAX_LINE]
    omega

theorem optionLine_fits {o : CStr × CStr} (hk : o.1 ∈ optionKeys) (hv : Fitting o.1 o.2)
    (pl : Place) : (optionLine o).Fits pl ∧ Conf.OneLine (optionLine o).text := by
  obtain ⟨hne, htrim, hhead, ⟨heq, hcolon, hnl, hnul⟩, hclear⟩ := optionKeys_fit o.1 hk
  rw [Option.all_eq_true] at hhead
  have hnoSep : ∀ c ∈ o.1, c ∉ ascii "=:" := by
    intro c hc hsep
    rcases Conf.mem_seps.mp hsep with rfl | rfl
    · exact heq hc
    · exact hcolon hc
  have hspace : Blank isspace [32] := by simp [isspace]
  have hend : Blank isspace [newline] := by simp [isspace, newline]
  have hvalue : Clear isspace inlineMark false ([32] ++ o.2) :=
    Lexical.clear_append.mpr ⟨by decide, hv.clear⟩
  refine ⟨⟨⟨by simp, .inr rfl⟩, htrim,
    fun c hc => of_decide_eq_true (hhead c hc), hnoSep, ⟨hspace, fun h => absurd h hne⟩, hclear,
    .inl rfl, hspace, hv.trimmed, hvalue, .inl hend⟩, ⟨o.1 ++ [32, 61, 32] ++ o.2, ?_, ?_⟩, ?_, ?_⟩
  · simp [optionLine, Line.text]
  · simp [newline, hnl, hv.oneLine.1]
  · simp [optionLine, Line.text, newline, hnul, hv.oneLine.2]
  · have hlen := hv.length
    simp only [optionLine, Line.text, List.nil_append, List.length_cons, List.length_append,
      List.length_nil]
    omega

theorem document_of_fits {lines : List Line} (h : ∀ l ∈ lines, ∀ pl, l.Fits pl) (pl : Place) :
    Document pl lines := by
  induction lines generalizing pl with
  | nil => trivial
  | cons l lines ih =>
    obtain ⟨hl, hlines⟩ := List.forall_mem_cons.mp h
    exact ⟨hl pl, ih hlines _⟩

theorem denotes_options (opts : List (CStr × CStr)) (lines : List Line) (pl : Place) :
    ∃ pl', denotes pl (opts.map optionLine ++ lines) =
      (opts.map fun o => (pl.section_, o)) ++ denotes pl' lines := by
  induction opts generalizing pl with
  | nil => exact ⟨pl, rfl⟩
  | cons o opts ih =>
    obtain ⟨pl', h⟩ := ih ((optionLine o).next pl)
    refine ⟨pl', ?_⟩
    rw [List.map_cons, List.cons_append, denotes, h]
    rfl

theorem denotes_lines (errors : List ErrinjConf) (pl : Place) :
    denotes pl (errors.flatMap ErrinjConf.lines) = errors.flatMap ErrinjConf.calls := by
  induction errors generalizing pl with
  | nil => rfl
  | cons err errors ih =>
    obtain ⟨pl', h⟩ := denotes_options err.options (errors.flatMap ErrinjConf.lines)
      ((sectionLine (errinjName err.type)).next pl)
    have hname : ((sectionLine (errinjName err.type)).next pl).section_ = errinjName err.type :=
      (errinjName_fits err.type).2.2.2.2.1
    rw [List.flatMap_cons, ErrinjConf.lines, List.cons_append, denotes, h, hname, ih]
    rfl

theorem isDocument_write {errors : List ErrinjConf} (h : Writable errors) :
    IsDocument (write errors) (errors.flatMap ErrinjConf.lines) := by
  have hlines : ∀ l ∈ errors.flatMap ErrinjConf.lines, (∀ pl, l.Fits pl) ∧ Conf.OneLine l.text := by
    intro l hl
    obtain ⟨err, he, hl⟩ := List.mem_flatMap.mp hl
    rcases List.mem_cons.mp hl with rfl | hl
    · have hfits := sectionLine_fits err.type
      exact ⟨fun pl => (hfits pl).1, (hfits {}).2⟩
    · obtain ⟨o, ho, rfl⟩ := List.mem_map.mp hl
      obtain ⟨hk, hv⟩ := h.options he o ho
      have hfits := optionLine_fits hk hv
      exact ⟨fun pl => (hfits pl).1, (hfits {}).2⟩
  refine Conf.isDocument_flatten (fun l hl => (hlines l hl).2) ?_
    (document_of_fits (fun l hl => (hlines l hl).1) {})
  intro l hl
  cases errors with
  | nil => simp at hl
  | cons err errors =>
    obtain rfl : sectionLine (errinjName err.type) = l := by simpa [ErrinjConf.lines] using hl
    rintro ⟨s, hs⟩
    simp [sectionLine, Line.text, Conf.byteOrderMark] at hs

/-- Writing a list of entries down and reading it gives the list back. -/
theorem iniParse_write (errors : List ErrinjConf) (h : Writable errors) :
    Conf.iniParse confOptionHandler (some (write errors)) [] = (0, errors) := by
  have hopts := (isDocument_write h).options
  rw [denotes_lines] at hopts
  have hopts' : Conf.iniOptions (write errors) = errors.flatMap ErrinjConf.calls :=
    congrArg Prod.snd hopts
  refine Prod.ext ((Conf.iniParse_eq_zero _ _).mpr ⟨congrArg Prod.fst hopts, ?_⟩) ?_
  · rw [hopts']
    refine accepts_of_known _ fun o ho => ?_
    obtain ⟨err, he, ho⟩ := List.mem_flatMap.mp ho
    obtain ⟨kv, hkv, rfl⟩ := List.mem_map.mp ho
    exact (h.options he kv hkv).1
  · rw [Conf.iniParse_user, hopts', foldl_flatMap_calls (by simpa using h.types) h.unsigned]
    rfl

def slowAndNoop : List ErrinjConf :=
  [{ type := .slowdown
     opRegexp := some (ascii "^(read|write)$")
     probability := 70
     duration := 4000000000 },
   { type := .noop, pathRegexp := some [] }]

theorem iniParse_write_two : Writable slowAndNoop ∧
    Conf.iniParse confOptionHandler (some (write slowAndNoop)) [] = (0, slowAndNoop) := by
  have hw : Writable slowAndNoop := by
    refine ⟨by decide, by decide, ?_, ?_⟩
    · have hv : Fitting (ascii "op_regexp") (ascii "^(read|write)$") :=
        ⟨by decide, by decide, by decide, by decide⟩
      simpa [slowAndNoop] using hv
    · have hv : Fitting (ascii "path_regexp") [] :=
        ⟨by decide, by decide, by decide, by decide⟩
      simpa [slowAndNoop] using hv
  exact ⟨hw, iniParse_write _ hw⟩

end UnreliableFS
