import UnreliableFS.Errinj
import Mathlib.Data.List.Induction
import Mathlib.Data.List.Nodup

/-!
# The entries of a configuration

What `conf_option_handler` builds from the options of a file: at most one entry
for each type, which is a cleared entry with the options of its section applied
in order. So a field of an entry has the last value its section gives it.
-/

namespace UnreliableFS

abbrev ConfOption := CStr × CStr × CStr

def applyOption (err : ErrinjConf) (o : ConfOption) : ErrinjConf :=
  match setOption o.2.1 o.2.2 with
  | some set => set err
  | none => err

def sectionOf (options : List ConfOption) (t : ErrinjType) : List ConfOption :=
  options.filter fun o => errinjTypeByName o.1 = some t

def entryOf (options : List ConfOption) (t : ErrinjType) : ErrinjConf :=
  (sectionOf options t).foldl applyOption { type := t }

/-- The list `config_init` has after these options. -/
def entries (options : List ConfOption) : List ErrinjConf :=
  options.foldl (Conf.deliver confOptionHandler) []

theorem setOptionIn_type {m : Allocs} {key value : CStr} {set : ErrinjConf → ErrinjConf}
    (h : setOptionIn m key value = some set) (err : ErrinjConf) : (set err).type = err.type := by
  unfold setOptionIn at h
  dsimp only at h
  split at h
  · cases h
    rfl
  · split at h
    · cases h
      rfl
    · split at h
      · cases h
        rfl
      · split at h
        · cases h
          rfl
        · cases h

@[simp] theorem applyOption_type (err : ErrinjConf) (o : ConfOption) :
    (applyOption err o).type = err.type := by
  unfold applyOption
  cases h : setOption o.2.1 o.2.2 with
  | none => rfl
  | some set => exact setOptionIn_type h err

@[simp] theorem entryOf_type (options : List ConfOption) (t : ErrinjType) :
    (entryOf options t).type = t := by
  have h (opts : List ConfOption) (err : ErrinjConf) :
      (opts.foldl applyOption err).type = err.type := by
    induction opts generalizing err with
    | nil => rfl
    | cons o opts ih => exact (ih _).trans (applyOption_type err o)
  exact h _ _

-- ---------------------------------------------------------------------------
-- Changing one entry
-- ---------------------------------------------------------------------------

theorem mem_modifyEntry {t : ErrinjType} {f : ErrinjConf → ErrinjConf} {l : List ErrinjConf}
    (hl : (l.map ErrinjConf.type).Nodup) {e : ErrinjConf} :
    e ∈ modifyEntry t f l ↔ ∃ e₀ ∈ l, e = if e₀.type = t then f e₀ else e₀ := by
  induction l with
  | nil => simp [modifyEntry]
  | cons err rest ih =>
    obtain ⟨hn, hrest⟩ := List.nodup_cons.mp hl
    by_cases ht : err.type = t
    · -- the entries after it are of other types
      have hne : ∀ e₀ ∈ rest, e₀.type ≠ t := fun e₀ hm he =>
        hn (ht.trans he.symm ▸ List.mem_map_of_mem hm)
      simp only [modifyEntry, ht, ↓reduceIte, List.mem_cons, exists_eq_or_imp]
      refine or_congr_right ⟨fun h => ⟨e, h, by rw [if_neg (hne e h)]⟩, ?_⟩
      rintro ⟨e₀, hm, rfl⟩
      rwa [if_neg (hne e₀ hm)]
    · simp only [modifyEntry, ht, ↓reduceIte, List.mem_cons, exists_eq_or_imp, ih hrest]

theorem types_modifyEntry {t : ErrinjType} {f : ErrinjConf → ErrinjConf}
    (hf : ∀ err, (f err).type = err.type) (l : List ErrinjConf) :
    (modifyEntry t f l).map ErrinjConf.type = l.map ErrinjConf.type := by
  induction l with
  | nil => rfl
  | cons err rest ih =>
    unfold modifyEntry
    split
    · simp [hf]
    · simp [ih]

theorem modifyEntry_id (t : ErrinjType) (l : List ErrinjConf) : modifyEntry t id l = l := by
  induction l with
  | nil => rfl
  | cons err rest ih => simp [modifyEntry, ih]

-- ---------------------------------------------------------------------------
-- The list
-- ---------------------------------------------------------------------------

structure Built (options : List ConfOption) (l : List ErrinjConf) : Prop where
  nodup : (l.map ErrinjConf.type).Nodup
  entry : ∀ e ∈ l, e = entryOf options e.type
  type_mem : ∀ t, sectionOf options t ≠ [] → t ∈ l.map ErrinjConf.type

def withEntry (t : ErrinjType) (l : List ErrinjConf) : List ErrinjConf :=
  if l.any (·.type = t) then l else l ++ [{ type := t }]

theorem confOptionHandlerIn_some {m : Allocs} {l : List ErrinjConf} {section_ : CStr} {t : ErrinjType}
    (ht : errinjTypeByName section_ = some t) (hroom : (∃ e ∈ l, e.type = t) ∨ m.calloc = true)
    (key value : CStr) : confOptionHandlerIn m l section_ key value =
      match setOptionIn m key value with
      | some set => (1, modifyEntry t set (withEntry t l))
      | none => (0, withEntry t l) := by
  have hany : ¬(¬l.any (·.type = t) = true ∧ ¬m.calloc = true) := by
    rintro ⟨hl, hm⟩
    obtain h | h := hroom
    · exact hl (by simpa using h)
    · exact hm h
  unfold confOptionHandlerIn
  simp only [ht, if_neg hany]
  rfl

theorem deliver_eq (l : List ErrinjConf) (o : ConfOption) :
    Conf.deliver confOptionHandler l o =
      (errinjTypeByName o.1).elim l fun t =>
        modifyEntry t (applyOption · o) (withEntry t l) := by
  unfold Conf.deliver
  cases ht : errinjTypeByName o.1 with
  | none => simp only [confOptionHandler, confOptionHandlerIn, ht, Option.elim_none]
  | some t =>
    rw [confOptionHandler, confOptionHandlerIn_some ht (.inr rfl), Option.elim_some]
    cases hs : setOption o.2.1 o.2.2 with
    | some set =>
      have hs' : setOptionIn {} o.2.1 o.2.2 = some set := hs
      simp [applyOption, hs, hs']
    | none =>
      have hs' : setOptionIn {} o.2.1 o.2.2 = none := hs
      have ha : (applyOption · o) = id := funext fun err => by simp [applyOption, hs]
      simp [hs', ha, modifyEntry_id]

theorem Built.withEntry {options : List ConfOption} {l : List ErrinjConf} (h : Built options l)
    (t : ErrinjType) : Built options (withEntry t l) ∧ t ∈ (withEntry t l).map ErrinjConf.type := by
  unfold UnreliableFS.withEntry
  by_cases ht : l.any (·.type = t)
  · rw [if_pos ht]
    obtain ⟨e, hm, he⟩ := List.any_eq_true.mp ht
    exact ⟨h, List.mem_map.mpr ⟨e, hm, of_decide_eq_true he⟩⟩
  · rw [if_neg ht]
    have hn : t ∉ l.map ErrinjConf.type := by
      simpa using ht
    have hs : sectionOf options t = [] := by
      by_contra hs
      exact hn (h.type_mem t hs)
    refine ⟨⟨?_, ?_, ?_⟩, by simp⟩
    · simpa [List.nodup_append] using ⟨h.nodup, by simpa using hn⟩
    · intro e he
      obtain he | he := List.mem_append.mp he
      · exact h.entry e he
      · obtain rfl := List.mem_singleton.mp he
        simp [entryOf, hs]
    · intro t' ht'
      simpa using Or.inl (List.mem_map.mp (h.type_mem t' ht'))

theorem sectionOf_append (options : List ConfOption) (o : ConfOption) (t : ErrinjType) :
    sectionOf (options ++ [o]) t =
      sectionOf options t ++ if errinjTypeByName o.1 = some t then [o] else [] := by
  simp [sectionOf, List.filter_append, List.filter_singleton]

theorem entryOf_append (options : List ConfOption) (o : ConfOption) (t : ErrinjType) :
    entryOf (options ++ [o]) t =
      if errinjTypeByName o.1 = some t then applyOption (entryOf options t) o
      else entryOf options t := by
  unfold entryOf
  rw [sectionOf_append]
  split <;> simp

theorem Built.deliver {options : List ConfOption} {l : List ErrinjConf} (h : Built options l)
    (o : ConfOption) : Built (options ++ [o]) (Conf.deliver confOptionHandler l o) := by
  rw [deliver_eq]
  cases ht : errinjTypeByName o.1 with
  | none =>
    refine ⟨h.nodup, fun e he => ?_, fun t hs => h.type_mem t ?_⟩
    · simpa [entryOf_append, ht] using h.entry e he
    · simpa [sectionOf_append, ht] using hs
  | some t =>
    obtain ⟨hb, hm⟩ := h.withEntry t
    simp only [Option.elim_some]
    have hf (err : ErrinjConf) : (applyOption err o).type = err.type := applyOption_type err o
    refine ⟨?_, ?_, ?_⟩
    · rw [types_modifyEntry hf]
      exact hb.nodup
    · intro e he
      obtain ⟨e₀, hm₀, rfl⟩ := (mem_modifyEntry hb.nodup).mp he
      have he₀ := hb.entry e₀ hm₀
      by_cases h₀ : e₀.type = t
      · rw [if_pos h₀, hf, entryOf_append, if_pos (h₀ ▸ ht), ← he₀]
      · rw [if_neg h₀, entryOf_append, if_neg (by simpa [ht] using Ne.symm h₀), ← he₀]
    · intro t' hs
      rw [types_modifyEntry hf]
      by_cases h' : t = t'
      · exact h' ▸ hm
      · exact hb.type_mem t' (by simpa [sectionOf_append, ht, h'] using hs)

theorem built_entries (options : List ConfOption) : Built options (entries options) := by
  induction options using List.reverseRecOn with
  | nil => exact ⟨List.nodup_nil, by simp [entries], by simp [sectionOf]⟩
  | append_singleton options o ih =>
    unfold entries
    rw [List.foldl_append]
    exact ih.deliver o

theorem eq_of_type_eq {options : List ConfOption} {e e' : ErrinjConf} (he : e ∈ entries options)
    (he' : e' ∈ entries options) (h : e.type = e'.type) : e = e' := by
  rw [(built_entries options).entry e he, (built_entries options).entry e' he', h]

-- ---------------------------------------------------------------------------
-- The probability
-- ---------------------------------------------------------------------------

def probabilityText (options : List ConfOption) (t : ErrinjType) : Option CStr :=
  ((sectionOf options t).reverse.find? fun o => o.2.1 = ascii "probability").map (·.2.2)

theorem applyOption_eq (err : ErrinjConf) (o : ConfOption) : applyOption err o = { err with
    pathRegexp := if o.2.1 = ascii "path_regexp" then some o.2.2 else err.pathRegexp
    opRegexp := if o.2.1 = ascii "op_regexp" then some o.2.2 else err.opRegexp
    probability := if o.2.1 = ascii "probability" then toUnsigned (atoi o.2.2) else err.probability
    duration := if o.2.1 = ascii "duration" then toUnsigned (atoi o.2.2) else err.duration } := by
  unfold applyOption setOption setOptionIn
  by_cases hp : o.2.1 = ascii "path_regexp"
  · rw [hp]
    rfl
  · by_cases ho : o.2.1 = ascii "op_regexp"
    · rw [ho]
      rfl
    · by_cases hb : o.2.1 = ascii "probability"
      · rw [hb]
        rfl
      · by_cases hd : o.2.1 = ascii "duration"
        · rw [hd]
          rfl
        · simp only [hp, ho, hb, hd, ↓reduceIte]

theorem applyOption_probability (err : ErrinjConf) (o : ConfOption) :
    (applyOption err o).probability =
      if o.2.1 = ascii "probability" then toUnsigned (atoi o.2.2) else err.probability := by
  rw [applyOption_eq]

theorem entryOf_probability (options : List ConfOption) (t : ErrinjType) :
    (entryOf options t).probability =
      (probabilityText options t).elim 0 fun value => toUnsigned (atoi value) := by
  unfold entryOf probabilityText
  induction sectionOf options t using List.reverseRecOn with
  | nil => rfl
  | append_singleton opts o ih =>
    rw [List.foldl_append, List.foldl_cons, List.foldl_nil, applyOption_probability, ih]
    simp only [List.reverse_append, List.reverse_singleton, List.singleton_append, List.find?_cons]
    by_cases hb : o.2.1 = ascii "probability"
    · simp [hb]
    · simp [hb]

theorem probability_of_mem {options : List ConfOption} {e : ErrinjConf} (he : e ∈ entries options)
    {value : CStr} (hv : probabilityText options e.type = some value) :
    e.probability = toUnsigned (atoi value) := by
  rw [(built_entries options).entry e he, entryOf_probability, hv]
  rfl

-- ---------------------------------------------------------------------------
-- What the list says
-- ---------------------------------------------------------------------------

theorem errinjTypeByName_iff {name : CStr} {t : ErrinjType} :
    errinjTypeByName name = some t ↔ errinjName t = name := by
  constructor
  · intro h
    unfold errinjTypeByName ErrinjType.all at h
    simp only [List.foldl_cons, List.foldl_nil] at h
    grind
  · rintro rfl
    cases t <;> rfl

theorem errinjName_injective {t t' : ErrinjType} (h : errinjName t = errinjName t') : t = t' :=
  Option.some.inj ((errinjTypeByName_iff.mpr h).symm.trans (errinjTypeByName_iff.mpr rfl))

def lastValue (options : List ConfOption) (section_ key : CStr) : Option CStr :=
  options.reverse.findSome? fun o => if o.1 = section_ ∧ o.2.1 = key then some o.2.2 else none

/-- The supported sections, each where it occurs first. -/
def sections (options : List ConfOption) : List CStr :=
  ((options.map (·.1)).filter fun s => ErrinjType.all.any (errinjName · = s)).eraseDups

theorem lastValue_append (options options' : List ConfOption) (section_ key : CStr) :
    lastValue (options ++ options') section_ key =
      (lastValue options' section_ key).or (lastValue options section_ key) := by
  simp [lastValue, List.findSome?_append]

theorem entryOf_field {γ : Type} (field : ErrinjConf → γ) (value : CStr → γ) (key : CStr)
    (h : ∀ err o, field (applyOption err o) = if o.2.1 = key then value o.2.2 else field err)
    (options : List ConfOption) (t : ErrinjType) : field (entryOf options t) =
      (lastValue options (errinjName t) key).elim (field { type := t }) value := by
  induction options using List.reverseRecOn with
  | nil => rfl
  | append_singleton options o ih =>
    rw [entryOf_append, lastValue_append]
    by_cases ht : errinjTypeByName o.1 = some t
    · have hs : o.1 = errinjName t := (errinjTypeByName_iff.mp ht).symm
      rw [if_pos ht, h, ih]
      by_cases hk : o.2.1 = key
      · simp [lastValue, hs, hk]
      · simp [lastValue, hs, hk]
    · have hs : o.1 ≠ errinjName t := fun hs => ht (errinjTypeByName_iff.mpr hs.symm)
      rw [if_neg ht, ih]
      simp [lastValue, hs]

theorem mem_errinjName {name : CStr} :
    name ∈ ErrinjType.all.map errinjName ↔ ∃ t, errinjTypeByName name = some t := by
  simp only [List.mem_map, errinjTypeByName_iff]
  refine exists_congr fun t => and_iff_right ?_
  cases t <;> decide

theorem eraseDups_concat {α : Type} [BEq α] [LawfulBEq α] (l : List α) (a : α) :
    (l ++ [a]).eraseDups = l.eraseDups ++ if a ∈ l then [] else [a] := by
  rw [List.eraseDups_append]
  by_cases h : a ∈ l
  · simp [h, List.removeAll]
  · simp [h, List.removeAll, List.eraseDups_cons]

theorem eraseDups_append_self {α : Type} [BEq α] [LawfulBEq α] (l : List α) :
    (l ++ l).eraseDups = l.eraseDups := by
  have h : l.removeAll l = [] := by simp [List.removeAll]
  rw [List.eraseDups_append, h, List.eraseDups_nil, List.append_nil]

theorem sections_append (options : List ConfOption) (o : ConfOption) :
    sections (options ++ [o]) =
      if o.1 ∈ ErrinjType.all.map errinjName ∧ o.1 ∉ sections options then sections options ++ [o.1]
      else sections options := by
  have hany : ErrinjType.all.any (errinjName · = o.1) = true ↔ o.1 ∈ ErrinjType.all.map errinjName := by
    simp
  unfold sections
  rw [List.map_append, List.filter_append, List.map_singleton, List.filter_singleton]
  by_cases hs : o.1 ∈ ErrinjType.all.map errinjName
  · rw [hany.mpr hs, cond_true, eraseDups_concat]
    by_cases h : o.1 ∈ (options.map (·.1)).filter fun s => ErrinjType.all.any (errinjName · = s)
    · rw [if_pos h, if_neg fun h' => h'.2 (List.mem_eraseDups.mpr h), List.append_nil]
    · rw [if_neg h, if_pos ⟨hs, fun h' => h (List.mem_eraseDups.mp h')⟩]
  · rw [Bool.eq_false_iff.mpr (mt hany.mp hs), cond_false, if_neg fun h => hs h.1, List.append_nil]

theorem names_withEntry (t : ErrinjType) (l : List ErrinjConf) :
    (withEntry t l).map (errinjName ·.type) =
      if errinjName t ∈ l.map (errinjName ·.type) then l.map (errinjName ·.type)
      else l.map (errinjName ·.type) ++ [errinjName t] := by
  have hany : l.any (·.type = t) = true ↔ errinjName t ∈ l.map (errinjName ·.type) := by
    simp only [List.any_eq_true, decide_eq_true_eq, List.mem_map]
    exact exists_congr fun e => and_congr_right fun _ => ⟨congrArg errinjName, errinjName_injective⟩
  unfold withEntry
  by_cases h : l.any (·.type = t)
  · rw [if_pos h, if_pos (hany.mp h)]
  · rw [if_neg h, if_neg (mt hany.mpr h), List.map_append]
    rfl

theorem names_entries (options : List ConfOption) :
    (entries options).map (errinjName ·.type) = sections options := by
  induction options using List.reverseRecOn with
  | nil => rfl
  | append_singleton options o ih =>
    have hl : entries (options ++ [o]) = Conf.deliver confOptionHandler (entries options) o := by
      simp [entries]
    rw [hl, deliver_eq, sections_append, ← ih]
    cases ht : errinjTypeByName o.1 with
    | none =>
      have hs : o.1 ∉ ErrinjType.all.map errinjName := by simp [mem_errinjName, ht]
      rw [if_neg fun h => hs h.1]
      rfl
    | some t =>
      have hs : o.1 ∈ ErrinjType.all.map errinjName := mem_errinjName.mpr ⟨t, ht⟩
      have hm := congrArg (List.map errinjName)
        (types_modifyEntry (t := t) (fun err => applyOption_type err o) (withEntry t (entries options)))
      simp only [List.map_map] at hm
      refine hm.trans ((names_withEntry t (entries options)).trans ?_)
      rw [errinjTypeByName_iff.mp ht]
      by_cases h : o.1 ∈ (entries options).map (errinjName ·.type)
      · simp [h]
      · simp [h, hs]

theorem sections_append_self (options : List ConfOption) :
    sections (options ++ options) = sections options := by
  unfold sections
  rw [List.map_append, List.filter_append, eraseDups_append_self]

/-- A list with what these options say, and nothing else. -/
structure Denotes (options : List ConfOption) (l : List ErrinjConf) : Prop where
  /-- One entry for each supported section that occurs, by first occurrence. -/
  names : l.map (errinjName ·.type) = sections options
  pathRegexp : ∀ e ∈ l, e.pathRegexp =
    lastValue options (errinjName e.type) (ascii "path_regexp")
  opRegexp : ∀ e ∈ l, e.opRegexp = lastValue options (errinjName e.type) (ascii "op_regexp")
  probability : ∀ e ∈ l, e.probability =
    (lastValue options (errinjName e.type) (ascii "probability")).elim 0 fun v => toUnsigned (atoi v)
  duration : ∀ e ∈ l, e.duration =
    (lastValue options (errinjName e.type) (ascii "duration")).elim 0 fun v => toUnsigned (atoi v)

theorem entries_denotes (options : List ConfOption) : Denotes options (entries options) := by
  have he {e : ErrinjConf} (hm : e ∈ entries options) : e = entryOf options e.type :=
    (built_entries options).entry e hm
  constructor
  case names => exact names_entries options
  case pathRegexp =>
    intro e hm
    rw [he hm, entryOf_type, entryOf_field ErrinjConf.pathRegexp some (ascii "path_regexp")
      (fun err o => by rw [applyOption_eq]) options e.type]
    cases lastValue options (errinjName e.type) (ascii "path_regexp") <;> rfl
  case opRegexp =>
    intro e hm
    rw [he hm, entryOf_type, entryOf_field ErrinjConf.opRegexp some (ascii "op_regexp")
      (fun err o => by rw [applyOption_eq]) options e.type]
    cases lastValue options (errinjName e.type) (ascii "op_regexp") <;> rfl
  case probability =>
    intro e hm
    rw [he hm, entryOf_type]
    exact entryOf_field ErrinjConf.probability _ _ (fun err o => by rw [applyOption_eq]) options e.type
  case duration =>
    intro e hm
    rw [he hm, entryOf_type]
    exact entryOf_field ErrinjConf.duration _ _ (fun err o => by rw [applyOption_eq]) options e.type

theorem Denotes.unique {options : List ConfOption} {l l' : List ErrinjConf} (h : Denotes options l)
    (h' : Denotes options l') : l = l' := by
  have hext {e e' : ErrinjConf} (hm : e ∈ l) (hm' : e' ∈ l') (ht : e.type = e'.type) : e = e' := by
    have hp := h.pathRegexp e hm
    have ho := h.opRegexp e hm
    have hb := h.probability e hm
    have hd := h.duration e hm
    rw [ht] at hp ho hb hd
    obtain ⟨t, o, p, b, d⟩ := e
    obtain ⟨t', o', p', b', d'⟩ := e'
    rw [ErrinjConf.mk.injEq]
    exact ⟨ht, ho.trans (h'.opRegexp _ hm').symm, hp.trans (h'.pathRegexp _ hm').symm,
      hb.trans (h'.probability _ hm').symm, hd.trans (h'.duration _ hm').symm⟩
  have hlen : l.length = l'.length := by
    have hn := congrArg List.length (h.names.trans h'.names.symm)
    rwa [List.length_map, List.length_map] at hn
  refine List.ext_getElem hlen fun n hn hn' => hext (List.getElem_mem hn) (List.getElem_mem hn') ?_
  have hname := List.getElem_of_eq (h.names.trans h'.names.symm) (by rwa [List.length_map])
  rw [List.getElem_map, List.getElem_map] at hname
  exact errinjName_injective hname

theorem entries_append_self (options : List ConfOption) :
    entries (options ++ options) = entries options := by
  have hlast (section_ key : CStr) : lastValue (options ++ options) section_ key =
      lastValue options section_ key := by
    rw [lastValue_append]
    cases lastValue options section_ key <;> rfl
  have h := entries_denotes (options ++ options)
  refine Denotes.unique ⟨h.names.trans (sections_append_self options), ?_, ?_, ?_, ?_⟩
    (entries_denotes options)
  · simpa only [hlast] using h.pathRegexp
  · simpa only [hlast] using h.opRegexp
  · simpa only [hlast] using h.probability
  · simpa only [hlast] using h.duration

/-- The handler computes what the options say, in whatever order sections and
keys come; the same options again change nothing. -/
theorem handler_denotes (options : List ConfOption) :
    Denotes options (options.foldl (Conf.deliver confOptionHandler) []) ∧
      (∀ l section_ key value, section_ ∉ ErrinjType.all.map errinjName →
        (confOptionHandler l section_ key value).2 = l) ∧
      options.foldl (Conf.deliver confOptionHandler)
          (options.foldl (Conf.deliver confOptionHandler) []) =
        options.foldl (Conf.deliver confOptionHandler) [] ∧
      ((options.foldl (Conf.deliver confOptionHandler) []).map ErrinjConf.type).Nodup ∧
      ∀ e ∈ options.foldl (Conf.deliver confOptionHandler) [],
        ErrinjType.all.idxOf e.type < (ErrinjType.all.map errinjName).length := by
  refine ⟨entries_denotes options, ?_, ?_, (built_entries options).nodup, ?_⟩
  · intro l section_ key value hs
    have ht : errinjTypeByName section_ = none := by
      rw [Option.eq_none_iff_forall_ne_some]
      exact fun t ht => hs (mem_errinjName.mpr ⟨t, ht⟩)
    simp only [confOptionHandler, confOptionHandlerIn, ht]
  · rw [← List.foldl_append]
    exact entries_append_self options
  · intro e _
    cases e.type <;> decide

end UnreliableFS
