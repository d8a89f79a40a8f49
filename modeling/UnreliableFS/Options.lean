import UnreliableFS.Probability
import Mathlib.Data.Nat.Digits.Defs

/-!
# What an option does to the list

One call of `conf_option_handler` against the contract of `ini_parse`, by which
a handler returns nonzero for an option it has applied and zero for one it has
not. It answers with -1 for a section that is not supported and when there is no
memory for the entry, and with 0 for an unknown key, once the entry of its section is
in the list; and it takes whatever `atoi` and `strdup` return for the value.
-/

namespace UnreliableFS

-- ---------------------------------------------------------------------------
-- What it is to apply an option
-- ---------------------------------------------------------------------------

def optionKeys : List CStr :=
  [ascii "path_regexp", ascii "op_regexp", ascii "probability", ascii "duration"]

def digitBytes (ds : List (Fin 10)) : CStr := ds.map fun d => (48 + d.val).toUInt8

def ofDigits (ds : List (Fin 10)) : Nat := Nat.ofDigits 10 (ds.map Fin.val).reverse

/-- A number in decimal: digits, the first the most significant, perhaps after a sign. -/
inductive Numeral : CStr → Int → Prop
  | digits (ds : List (Fin 10)) : ds ≠ [] → Numeral (digitBytes ds) (ofDigits ds)
  | plus (ds : List (Fin 10)) : ds ≠ [] → Numeral (43 :: digitBytes ds) (ofDigits ds)
  | minus (ds : List (Fin 10)) : ds ≠ [] → Numeral (45 :: digitBytes ds) (-ofDigits ds)

/-- The field a key names holds the value, and the other fields are as before. -/
structure SetTo (key value : CStr) (err err' : ErrinjConf) : Prop where
  known : key ∈ optionKeys
  type : err'.type = err.type
  pathRegexp : err'.pathRegexp = if key = ascii "path_regexp" then some value else err.pathRegexp
  opRegexp : err'.opRegexp = if key = ascii "op_regexp" then some value else err.opRegexp
  probability : if key = ascii "probability" then Numeral value err'.probability
    else err'.probability = err.probability
  duration : if key = ascii "duration" then Numeral value err'.duration
    else err'.duration = err.duration

/-- The named field of the entry of the named section holds the value, and all
else is as before. An entry that was not there is new, and last. -/
def Applied (cfg : List ErrinjConf) (o : ConfOption) (cfg' : List ErrinjConf) : Prop :=
  ∃ t before err err' after, errinjName t = o.1 ∧ (∀ e ∈ before, e.type ≠ t) ∧ err.type = t ∧
    SetTo o.2.1 o.2.2 err err' ∧ cfg' = before ++ err' :: after ∧
      (cfg = before ++ err :: after ∨ cfg = before ∧ err = { type := t } ∧ after = [])

/-- What the handler returns for an option tells whether it has been applied, and
one that has not been changes nothing. -/
structure Reported (m : Allocs) (cfg : List ErrinjConf) (o : ConfOption) : Prop where
  nonzero : (confOptionHandlerIn m cfg o.1 o.2.1 o.2.2).1 ≠ 0 ↔
    Applied cfg o (Conf.deliver (confOptionHandlerIn m) cfg o)
  unchanged : (confOptionHandlerIn m cfg o.1 o.2.1 o.2.2).1 = 0 →
    Conf.deliver (confOptionHandlerIn m) cfg o = cfg

/-- The section is supported, and its entry is there or can be allocated. -/
def Placed (m : Allocs) (cfg : List ErrinjConf) (o : ConfOption) : Prop :=
  o.1 ∈ ErrinjType.all.map errinjName ∧ ((∃ e ∈ cfg, errinjName e.type = o.1) ∨ m.calloc = true)

/-- The key is known, and its field can hold the value. -/
def Storable (m : Allocs) (o : ConfOption) : Prop :=
  o.2.1 ∈ [ascii "path_regexp", ascii "op_regexp"] ∧ m.strdup = true ∨
    o.2.1 ∈ [ascii "probability", ascii "duration"] ∧ ∃ n : Nat, n < 2 ^ 32 ∧ Numeral o.2.2 n

-- ---------------------------------------------------------------------------
-- Numbers
-- ---------------------------------------------------------------------------

theorem isdigit_digitBytes {ds : List (Fin 10)} : ∀ c ∈ digitBytes ds, isdigit c = true := by
  intro c hc
  obtain ⟨d, -, rfl⟩ := List.mem_map.mp hc
  have hd : ∀ d : Fin 10, isdigit (48 + d.val).toUInt8 = true := by decide
  exact hd d

theorem digitsValue_digitBytes (ds : List (Fin 10)) (acc : Nat) :
    digitsValue (digitBytes ds) acc = 10 ^ ds.length * acc + ofDigits ds := by
  induction ds generalizing acc with
  | nil => simp [digitBytes, digitsValue, ofDigits]
  | cons d ds ih =>
    have hd : isdigit (48 + d.val).toUInt8 = true ∧ (48 + d.val).toUInt8.toNat - 48 = d.val := by
      decide +revert
    have ho : ofDigits (d :: ds) = ofDigits ds + 10 ^ ds.length * d.val := by
      simp [ofDigits, Nat.ofDigits_append]
    rw [ho, digitBytes, List.map_cons, digitsValue, if_pos hd.1, hd.2]
    refine (ih _).trans ?_
    rw [List.length_cons, Nat.pow_succ, Nat.mul_add]
    ring

theorem digits_digitBytes {ds : List (Fin 10)} (h : ds ≠ []) :
    digits? (digitBytes ds) = some (ofDigits ds) := by
  have hne : digitBytes ds ≠ [] := by simpa [digitBytes] using h
  rw [digits?, if_pos ⟨hne, List.all_eq_true.mpr isdigit_digitBytes⟩, digitsValue_digitBytes]
  simp

theorem Numeral.decimal {value : CStr} {n : Int} (h : Numeral value n) : decimal? value = some n := by
  cases h with
  | digits ds hne =>
    have hd := digits_digitBytes hne
    unfold decimal?
    split
    · rename_i t heq
      have := isdigit_digitBytes 45 (heq ▸ List.mem_cons_self)
      exact absurd this (by decide)
    · rename_i t heq
      have := isdigit_digitBytes 43 (heq ▸ List.mem_cons_self)
      exact absurd this (by decide)
    · simp [hd]
  | plus ds hne => simp [decimal?, digits_digitBytes hne]
  | minus ds hne => simp [decimal?, digits_digitBytes hne]

theorem numeral_stored {value : CStr} :
    Numeral value (toUnsigned (atoi value)) ↔ ∃ n : Nat, n < 2 ^ 32 ∧ Numeral value n := by
  constructor
  · refine fun h => ⟨_, ?_, h⟩
    unfold toUnsigned
    omega
  · rintro ⟨n, hn, h⟩
    have hv := toUnsigned_atoi h.decimal
    have hs : toUnsigned (atoi value) = n := by omega
    rwa [hs]

-- ---------------------------------------------------------------------------
-- One option
-- ---------------------------------------------------------------------------

variable {m : Allocs} {cfg : List ErrinjConf} {o : ConfOption} {t : ErrinjType}

theorem setOptionIn_isSome (m : Allocs) (key value : CStr) :
    (setOptionIn m key value).isSome ↔ key ∈ optionKeys := by
  unfold setOptionIn optionKeys
  grind

theorem setTo_iff {set : ErrinjConf → ErrinjConf} (h : setOptionIn m o.2.1 o.2.2 = some set)
    (err : ErrinjConf) : SetTo o.2.1 o.2.2 err (set err) ↔ Storable m o := by
  obtain ⟨section_, key, value⟩ := o
  have hk : key ∈ optionKeys := (setOptionIn_isSome m key value).mp (Option.isSome_of_mem h)
  have hcopy : (if m.strdup then some value else none) = some value ↔ m.strdup = true := by
    cases m.strdup <;> simp
  have hsplit : SetTo key value err (set err) ↔
      (set err).pathRegexp = (if key = ascii "path_regexp" then some value else err.pathRegexp) ∧
      (set err).opRegexp = (if key = ascii "op_regexp" then some value else err.opRegexp) ∧
      (if key = ascii "probability" then Numeral value (set err).probability
        else (set err).probability = err.probability) ∧
      if key = ascii "duration" then Numeral value (set err).duration
        else (set err).duration = err.duration :=
    ⟨fun h' => ⟨h'.3, h'.4, h'.5, h'.6⟩,
      fun h' => ⟨hk, setOptionIn_type h err, h'.1, h'.2.1, h'.2.2.1, h'.2.2.2⟩⟩
  rw [hsplit, Storable, ← numeral_stored]
  simp only [optionKeys, List.mem_cons, List.not_mem_nil, or_false] at hk
  obtain rfl | rfl | rfl | rfl := hk
  · obtain rfl : _ = set := Option.some.inj h
    simp [ascii, hcopy]
  · obtain rfl : _ = set := Option.some.inj h
    simp [ascii, hcopy]
  · obtain rfl : _ = set := Option.some.inj h
    simp [ascii]
  · obtain rfl : _ = set := Option.some.inj h
    simp [ascii]

theorem modifyEntry_append {f : ErrinjConf → ErrinjConf} {before after : List ErrinjConf}
    {err : ErrinjConf} (hb : ∀ e ∈ before, e.type ≠ t) (he : err.type = t) :
    modifyEntry t f (before ++ err :: after) = before ++ f err :: after := by
  induction before with
  | nil => simp [modifyEntry, he]
  | cons e before ih =>
    simp [modifyEntry, hb e List.mem_cons_self, ih fun e' hm => hb e' (List.mem_cons_of_mem e hm)]

theorem withEntry_split (t : ErrinjType) (cfg : List ErrinjConf) : ∃ before err after,
    (∀ e ∈ before, e.type ≠ t) ∧ err.type = t ∧ withEntry t cfg = before ++ err :: after ∧
      (cfg = before ++ err :: after ∨ cfg = before ∧ err = { type := t } ∧ after = []) := by
  unfold withEntry
  cases h : cfg.find? (·.type = t) with
  | some err =>
    obtain ⟨ht, before, after, hcfg, hb⟩ := List.find?_eq_some_iff_append.mp h
    have hany : cfg.any (·.type = t) := by
      rw [List.any_eq_true]
      exact ⟨err, by simp [hcfg], ht⟩
    rw [if_pos hany]
    exact ⟨before, err, after, by simpa using hb, of_decide_eq_true ht, hcfg, .inl hcfg⟩
  | none =>
    have hn : ∀ e ∈ cfg, e.type ≠ t := by simpa using h
    have hany : ¬cfg.any (·.type = t) := by simpa using hn
    rw [if_neg hany]
    exact ⟨cfg, { type := t }, [], hn, rfl, rfl, .inr ⟨rfl, rfl, rfl⟩⟩

theorem storable_key (h : Storable m o) : o.2.1 ∈ optionKeys := by
  obtain ⟨hs, -⟩ | ⟨hs, -⟩ := h
  · simp only [List.mem_cons, List.not_mem_nil, or_false] at hs
    simp [optionKeys, hs.elim (Or.inl ·) (Or.inr ∘ Or.inl)]
  · exact List.mem_cons_of_mem _ (List.mem_cons_of_mem _ hs)

theorem first_unique {before before' after after' : List ErrinjConf} {err err' : ErrinjConf}
    (hb : ∀ e ∈ before, e.type ≠ t) (he : err.type = t) (hb' : ∀ e ∈ before', e.type ≠ t)
    (he' : err'.type = t) (h : before ++ err :: after = before' ++ err' :: after') :
    before = before' ∧ err = err' ∧ after = after' := by
  induction before generalizing before' with
  | nil =>
    cases before' with
    | nil => simpa using h
    | cons e before' =>
      obtain ⟨rfl, -⟩ := List.cons.inj h
      exact absurd he (hb' err List.mem_cons_self)
  | cons e before ih =>
    cases before' with
    | nil =>
      obtain ⟨rfl, -⟩ := List.cons.inj h
      exact absurd he' (hb e List.mem_cons_self)
    | cons e' before' =>
      obtain ⟨rfl, hrest⟩ := List.cons.inj h
      obtain ⟨rfl, rfl, rfl⟩ := ih (fun e hm => hb e (List.mem_cons_of_mem _ hm))
        (fun e hm => hb' e (List.mem_cons_of_mem _ hm)) hrest
      exact ⟨rfl, rfl, rfl⟩

theorem place_unique {before after : List ErrinjConf} {err e : ErrinjConf}
    (hb : ∀ e ∈ before, e.type ≠ t) (he : err.type = t) (he' : e.type = t)
    (h : cfg = before ++ err :: after ∨ cfg = before ∧ err = { type := t } ∧ after = [])
    (h' : cfg = before ++ e :: after ∨ cfg = before ∧ e = { type := t } ∧ after = []) : err = e := by
  obtain h | ⟨rfl, rfl, rfl⟩ := h
  · obtain h' | ⟨rfl, -⟩ := h'
    · exact (first_unique hb he hb he' (h.symm.trans h')).2.1
    · exact absurd he (hb err (h ▸ by simp))
  · obtain h' | ⟨-, rfl, -⟩ := h'
    · exact absurd he' (hb e (h' ▸ by simp))
    · rfl

theorem named_iff : (∃ e ∈ cfg, errinjName e.type = errinjName t) ↔ ∃ e ∈ cfg, e.type = t :=
  exists_congr fun _ => and_congr_right fun _ => ⟨errinjName_injective, congrArg errinjName⟩

theorem placed_iff (ht : errinjTypeByName o.1 = some t) :
    Placed m cfg o ↔ (∃ e ∈ cfg, e.type = t) ∨ m.calloc = true := by
  have hs : o.1 ∈ ErrinjType.all.map errinjName := mem_errinjName.mpr ⟨t, ht⟩
  rw [Placed, ← errinjTypeByName_iff.mp ht, named_iff]
  exact and_iff_right (errinjTypeByName_iff.mp ht ▸ hs)

theorem handler_unplaced (h : ¬Placed m cfg o) :
    confOptionHandlerIn m cfg o.1 o.2.1 o.2.2 = (-1, cfg) := by
  unfold confOptionHandlerIn
  cases ht : errinjTypeByName o.1 with
  | none => rfl
  | some t =>
    rw [placed_iff ht, not_or] at h
    have hany : ¬cfg.any (·.type = t) = true := by simpa using h.1
    exact if_pos ⟨hany, h.2⟩

theorem handler_placed (h : Placed m cfg o) : ∃ t before err after, errinjName t = o.1 ∧
    (∀ e ∈ before, e.type ≠ t) ∧ err.type = t ∧
    (cfg = before ++ err :: after ∨ cfg = before ∧ err = { type := t } ∧ after = []) ∧
    confOptionHandlerIn m cfg o.1 o.2.1 o.2.2 = match setOptionIn m o.2.1 o.2.2 with
      | some set => (1, before ++ set err :: after)
      | none => (0, before ++ err :: after) := by
  obtain ⟨t, ht⟩ := mem_errinjName.mp h.1
  obtain ⟨before, err, after, hb, he, hcfg', hcfg⟩ := withEntry_split t cfg
  refine ⟨t, before, err, after, errinjTypeByName_iff.mp ht, hb, he, hcfg, ?_⟩
  rw [confOptionHandlerIn_some ht ((placed_iff ht).mp h), hcfg']
  cases setOptionIn m o.2.1 o.2.2 with
  | some set => simp only [modifyEntry_append hb he]
  | none => rfl

theorem applied_iff : Applied cfg o (Conf.deliver (confOptionHandlerIn m) cfg o) ↔
    Placed m cfg o ∧ Storable m o := by
  unfold Conf.deliver
  by_cases hp : Placed m cfg o
  · obtain ⟨t, before, err, after, ht, hb, he, hcfg, hr⟩ := handler_placed hp
    rw [and_iff_right hp, hr]
    cases hset : setOptionIn m o.2.1 o.2.2 with
    | none =>
      have hk : o.2.1 ∉ optionKeys := by simp [← setOptionIn_isSome m _ o.2.2, hset]
      refine iff_of_false ?_ fun hs => hk (storable_key hs)
      rintro ⟨_, _, _, _, _, -, -, -, hto, -⟩
      exact hk hto.known
    | some set =>
      rw [← setTo_iff hset err]
      constructor
      · rintro ⟨t', before', e, e', after', ht', hb', he', hto, heq, hcfg'⟩
        obtain rfl : t = t' := errinjName_injective (ht.trans ht'.symm)
        have hset' : (set err).type = t := (setOptionIn_type hset err).trans he
        obtain ⟨rfl, rfl, rfl⟩ := first_unique hb hset' hb' (hto.type.trans he') heq
        obtain rfl := place_unique hb he he' hcfg hcfg'
        exact hto
      · intro hto
        exact ⟨t, before, err, set err, after, ht, hb, he, hto, rfl, hcfg⟩
  · rw [handler_unplaced hp]
    refine iff_of_false ?_ fun h => hp h.1
    rintro ⟨t, before, e, e', after, ht, -, he, hto, heq, -⟩
    have hcfg : cfg = before ++ e' :: after := heq
    have hmem : e' ∈ cfg := hcfg ▸ by simp
    have hname : errinjName e'.type = o.1 := by rw [hto.type, he, ht]
    refine hp ⟨hname ▸ mem_errinjName.mpr ⟨_, errinjTypeByName_iff.mpr rfl⟩, .inl ⟨e', hmem, hname⟩⟩

theorem code_placed (h : Placed m cfg o) :
    (confOptionHandlerIn m cfg o.1 o.2.1 o.2.2).1 = if o.2.1 ∈ optionKeys then 1 else 0 := by
  obtain ⟨t, before, err, after, -, -, -, -, hr⟩ := handler_placed h
  simp only [hr, ← setOptionIn_isSome m o.2.1 o.2.2]
  cases setOptionIn m o.2.1 o.2.2 <;> rfl

theorem deliver_unknown_key (h : Placed m cfg o) (hk : o.2.1 ∉ optionKeys) :
    Conf.deliver (confOptionHandlerIn m) cfg o = cfg ↔ ∃ e ∈ cfg, errinjName e.type = o.1 := by
  obtain ⟨t, before, err, after, ht, hb, he, hcfg, hr⟩ := handler_placed h
  have hset : setOptionIn m o.2.1 o.2.2 = none := by
    simpa [← setOptionIn_isSome m _ o.2.2] using hk
  rw [Conf.deliver, hr, hset, ← ht, named_iff]
  obtain rfl | ⟨rfl, rfl, rfl⟩ := hcfg
  · exact iff_of_true rfl ⟨err, by simp, he⟩
  · refine iff_of_false (by simp) ?_
    rintro ⟨e, hm, hte⟩
    exact hb e hm hte

theorem reported_iff : Reported m cfg o ↔ Placed m cfg o ∧
    (Storable m o ∨ o.2.1 ∉ optionKeys ∧ ∃ e ∈ cfg, errinjName e.type = o.1) := by
  by_cases hp : Placed m cfg o
  · rw [and_iff_right hp]
    have hcode := code_placed hp
    by_cases hk : o.2.1 ∈ optionKeys
    · rw [if_pos hk] at hcode
      have hne : (confOptionHandlerIn m cfg o.1 o.2.1 o.2.2).1 ≠ 0 := by
        rw [hcode]
        decide
      constructor
      · exact fun h => .inl (applied_iff.mp (h.nonzero.mp hne)).2
      · rintro (hs | ⟨hn, -⟩)
        · exact ⟨iff_of_true hne (applied_iff.mpr ⟨hp, hs⟩), fun hz => absurd hz hne⟩
        · exact absurd hk hn
    · rw [if_neg hk] at hcode
      constructor
      · exact fun h => .inr ⟨hk, (deliver_unknown_key hp hk).mp (h.unchanged hcode)⟩
      · rintro (hs | ⟨-, he⟩)
        · exact absurd (storable_key hs) hk
        · exact ⟨iff_of_false (fun h => h hcode) fun h => hk (storable_key (applied_iff.mp h).2),
            fun _ => (deliver_unknown_key hp hk).mpr he⟩
  · refine iff_of_false (fun h => ?_) fun h => hp h.1
    have hne : (confOptionHandlerIn m cfg o.1 o.2.1 o.2.2).1 ≠ 0 := by
      rw [handler_unplaced hp]
      exact Int.negSucc_ne_zero 0
    exact hp (applied_iff.mp (h.nonzero.mp hne)).1

-- ---------------------------------------------------------------------------
-- All options of a file
-- ---------------------------------------------------------------------------

abbrev Loading := List ErrinjConf × (Nat → Allocs)

def loading : Conf.Handler Loading := fun u section_ key value =>
  let (rc, cfg) := confOptionHandlerIn (u.2 0) u.1 section_ key value
  (rc, cfg, fun i => u.2 (i + 1))

def listAfter (cfg : List ErrinjConf) (ms : Nat → Allocs) (options : List ConfOption) :
    List ErrinjConf :=
  (options.foldl (Conf.deliver loading) (cfg, ms)).1

/-- `ini_parse` returns nonzero if some option of the file has not been applied. -/
def ParseReports (bytes : List UInt8) (cfg : List ErrinjConf) (ms : Nat → Allocs) : Prop :=
  (∃ i o, (Conf.iniOptions bytes)[i]? = some o ∧
    ¬Applied (listAfter cfg ms ((Conf.iniOptions bytes).take i)) o
      (listAfter cfg ms ((Conf.iniOptions bytes).take (i + 1)))) →
  (Conf.iniParse loading (some bytes) (cfg, ms)).1 ≠ 0

/-- The entry of an option is in the list from the start, or an option up to this one can
allocate it. -/
def PlacedAt (cfg : List ErrinjConf) (ms : Nat → Allocs) (options : List ConfOption) (i : Nat)
    (o : ConfOption) : Prop :=
  o.1 ∈ ErrinjType.all.map errinjName ∧ ((∃ e ∈ cfg, errinjName e.type = o.1) ∨
    ∃ j o', j ≤ i ∧ options[j]? = some o' ∧ o'.1 = o.1 ∧ (ms j).calloc = true)

variable {ms : Nat → Allocs}

theorem foldl_loading (options : List ConfOption) :
    options.foldl (Conf.deliver loading) (cfg, ms) =
      (listAfter cfg ms options, fun i => ms (i + options.length)) := by
  induction options using List.reverseRecOn with
  | nil => rfl
  | append_singleton options o ih =>
    have hs : (options ++ [o]).foldl (Conf.deliver loading) (cfg, ms) =
        Conf.deliver loading (options.foldl (Conf.deliver loading) (cfg, ms)) o := by simp
    refine Prod.ext rfl ?_
    rw [hs, ih]
    funext i
    simp [Conf.deliver, loading, Nat.add_assoc, Nat.add_comm 1]

theorem listAfter_append (options : List ConfOption) (o : ConfOption) :
    listAfter cfg ms (options ++ [o]) =
      Conf.deliver (confOptionHandlerIn (ms options.length)) (listAfter cfg ms options) o := by
  have hs : (options ++ [o]).foldl (Conf.deliver loading) (cfg, ms) =
      Conf.deliver loading (options.foldl (Conf.deliver loading) (cfg, ms)) o := by simp
  rw [listAfter, hs, foldl_loading]
  simp [Conf.deliver, loading]

theorem named_deliver {s : CStr} (hs : s ∈ ErrinjType.all.map errinjName) :
    (∃ e ∈ Conf.deliver (confOptionHandlerIn m) cfg o, errinjName e.type = s) ↔
      (∃ e ∈ cfg, errinjName e.type = s) ∨ o.1 = s ∧ m.calloc = true := by
  by_cases hp : Placed m cfg o
  · obtain ⟨t, before, err, after, ht, hb, he, hcfg, hr⟩ := handler_placed hp
    have hout : ∃ err', err'.type = t ∧
        Conf.deliver (confOptionHandlerIn m) cfg o = before ++ err' :: after := by
      unfold Conf.deliver
      rw [hr]
      cases hset : setOptionIn m o.2.1 o.2.2 with
      | some set => exact ⟨_, (setOptionIn_type hset err).trans he, rfl⟩
      | none => exact ⟨_, he, rfl⟩
    obtain ⟨err', he', hout⟩ := hout
    rw [hout]
    obtain rfl | ⟨rfl, rfl, rfl⟩ := hcfg
    · have hsame : (∃ e ∈ before ++ err' :: after, errinjName e.type = s) ↔
          ∃ e ∈ before ++ err :: after, errinjName e.type = s := by
        simp [List.mem_append, or_and_right, exists_or, he, he']
      rw [hsame]
      refine ⟨.inl, fun h => h.elim id fun h => ⟨err, by simp, ?_⟩⟩
      rw [he, ht, h.1]
    · simp only [List.mem_append, List.mem_singleton, or_and_right, exists_or, exists_eq_left, he', ht]
      refine or_congr_right ⟨fun h => ⟨h, hp.2.resolve_left ?_⟩, And.left⟩
      rintro ⟨e, hm, hname⟩
      exact hb e hm (errinjName_injective (hname.trans ht.symm))
  · rw [Conf.deliver, handler_unplaced hp]
    refine ⟨.inl, fun h => h.elim id fun h => absurd ?_ hp⟩
    exact ⟨h.1 ▸ hs, .inr h.2⟩

theorem named_listAfter {s : CStr} (hs : s ∈ ErrinjType.all.map errinjName) (options : List ConfOption) :
    (∃ e ∈ listAfter cfg ms options, errinjName e.type = s) ↔
      (∃ e ∈ cfg, errinjName e.type = s) ∨
        ∃ j o', options[j]? = some o' ∧ o'.1 = s ∧ (ms j).calloc = true := by
  induction options using List.reverseRecOn with
  | nil => simp [listAfter]
  | append_singleton options o ih =>
    rw [listAfter_append, named_deliver hs, ih, or_assoc]
    refine or_congr_right ⟨?_, ?_⟩
    · rintro (⟨j, o', hj, ho, hm⟩ | ⟨ho, hm⟩)
      · exact ⟨j, o', List.getElem?_append_left (List.getElem?_eq_some_iff.mp hj).1 ▸ hj, ho, hm⟩
      · exact ⟨options.length, o, by simp, ho, hm⟩
    · rintro ⟨j, o', hj, ho, hm⟩
      rw [List.getElem?_append] at hj
      split at hj
      · exact .inl ⟨j, o', hj, ho, hm⟩
      · rename_i hlt
        obtain ⟨hj', hoo⟩ := List.getElem?_eq_some_iff.mp hj
        have hjl : j = options.length := by
          simp only [List.length_singleton] at hj'
          omega
        subst hjl
        simp only [Nat.sub_self, List.getElem_cons_zero] at hoo
        exact .inr ⟨hoo ▸ ho, hm⟩

theorem placedAt_iff {options : List ConfOption} {i : Nat} (h : options[i]? = some o) :
    PlacedAt cfg ms options i o ↔ Placed (ms i) (listAfter cfg ms (options.take i)) o := by
  unfold PlacedAt Placed
  refine and_congr_right fun hs => ?_
  rw [named_listAfter hs, or_assoc]
  refine or_congr_right ⟨?_, ?_⟩
  · rintro ⟨j, o', hj, ho, hname, hm⟩
    obtain hj | rfl := Nat.lt_or_eq_of_le hj
    · exact .inl ⟨j, o', by rw [List.getElem?_take_of_lt hj, ho], hname, hm⟩
    · exact .inr hm
  · rintro (⟨j, o', ho, hname, hm⟩ | hm)
    · have hj : j < i := by
        have := (List.getElem?_eq_some_iff.mp ho).1
        simp only [List.length_take] at this
        omega
      exact ⟨j, o', hj.le, by rwa [List.getElem?_take_of_lt hj] at ho, hname, hm⟩
    · exact ⟨i, o, Nat.le_refl i, h, rfl, hm⟩

theorem accepts_getElem {υ : Type} (handler : Conf.Handler υ) (user : υ) (options : List ConfOption) :
    Conf.Accepts handler user options ↔ ∀ i o, options[i]? = some o →
      (handler ((options.take i).foldl (Conf.deliver handler) user) o.1 o.2.1 o.2.2).1 ≠ 0 := by
  induction options generalizing user with
  | nil => simp [Conf.Accepts]
  | cons o options ih =>
    rw [Conf.Accepts, ih]
    constructor
    · rintro ⟨h₀, h⟩ i o' ho
      cases i with
      | zero =>
        cases ho
        exact h₀
      | succ i => exact h i o' ho
    · exact fun h => ⟨h 0 o rfl, fun i o' ho => h (i + 1) o' ho⟩

theorem accepts_of_known (cfg : List ErrinjConf) {options : List ConfOption}
    (h : ∀ o ∈ options, o.2.1 ∈ optionKeys) : Conf.Accepts confOptionHandler cfg options := by
  unfold confOptionHandler
  rw [accepts_getElem]
  intro i o ho
  have hk := h o (List.mem_of_getElem? ho)
  by_cases hp : Placed {} ((options.take i).foldl (Conf.deliver (confOptionHandlerIn {})) cfg) o
  · rw [code_placed hp, if_pos hk]
    decide
  · rw [handler_unplaced hp]
    exact Int.negSucc_ne_zero 0

theorem accepts_loading (options : List ConfOption) : Conf.Accepts loading (cfg, ms) options ↔
    ∀ i o, options[i]? = some o → PlacedAt cfg ms options i o → o.2.1 ∈ optionKeys := by
  rw [accepts_getElem]
  refine forall_congr' fun i => forall_congr' fun o => forall_congr' fun h => ?_
  have hlen : (options.take i).length = i := by
    rw [List.length_take]
    exact Nat.min_eq_left (List.getElem?_eq_some_iff.mp h).1.le
  rw [placedAt_iff h, foldl_loading, hlen]
  simp only [loading, Nat.zero_add]
  by_cases hp : Placed (ms i) (listAfter cfg ms (options.take i)) o
  · rw [code_placed hp]
    by_cases hk : o.2.1 ∈ optionKeys
    · simp [hk]
    · simp [hk, hp]
  · rw [handler_unplaced hp]
    exact iff_of_true (Int.negSucc_ne_zero 0) fun h => absurd h hp

theorem applied_at {options : List ConfOption} {i : Nat} (h : options[i]? = some o) :
    Applied (listAfter cfg ms (options.take i)) o (listAfter cfg ms (options.take (i + 1))) ↔
      PlacedAt cfg ms options i o ∧ Storable (ms i) o := by
  obtain ⟨hi, rfl⟩ := List.getElem?_eq_some_iff.mp h
  have hlen : (options.take i).length = i := by
    rw [List.length_take]
    exact Nat.min_eq_left hi.le
  rw [List.take_succ_eq_append_getElem hi, listAfter_append, applied_iff, hlen, placedAt_iff h]

theorem parseReports_iff (bytes : List UInt8) : ParseReports bytes cfg ms ↔
    ((Conf.iniParse Conf.record (some bytes) []).1 = 0 →
      (∀ i o, (Conf.iniOptions bytes)[i]? = some o → PlacedAt cfg ms (Conf.iniOptions bytes) i o →
        o.2.1 ∈ optionKeys) →
      ∀ i o, (Conf.iniOptions bytes)[i]? = some o →
        PlacedAt cfg ms (Conf.iniOptions bytes) i o ∧ Storable (ms i) o) := by
  unfold ParseReports
  rw [Ne, Conf.iniParse_eq_zero, accepts_loading]
  constructor
  · intro h hz hk i o ho
    by_contra hn
    exact h ⟨i, o, ho, mt (applied_at ho).mp hn⟩ ⟨hz, hk⟩
  · rintro h ⟨i, o, ho, hn⟩ ⟨hz, hk⟩
    exact hn ((applied_at ho).mpr (h hz hk i o ho))

/-- What the handler answers says whether the option has been applied just if its entry
has a place and either its field can hold the value or, for an unknown key, the entry was
there before; and `ini_parse` tells of every option not applied just if the file has an
error or an option is answered with 0 or all are applied. -/
theorem options_reported_iff (cfg : List ErrinjConf) (o : ConfOption) (m : Allocs)
    (bytes : List UInt8) (ms : Nat → Allocs) :
    (Reported m cfg o ↔ Placed m cfg o ∧
      (Storable m o ∨ o.2.1 ∉ optionKeys ∧ ∃ e ∈ cfg, errinjName e.type = o.1)) ∧
    (ParseReports bytes cfg ms ↔
      ((Conf.iniParse Conf.record (some bytes) []).1 = 0 →
        (∀ i o, (Conf.iniOptions bytes)[i]? = some o → PlacedAt cfg ms (Conf.iniOptions bytes) i o →
          o.2.1 ∈ optionKeys) →
        ∀ i o, (Conf.iniOptions bytes)[i]? = some o →
          PlacedAt cfg ms (Conf.iniOptions bytes) i o ∧ Storable (ms i) o)) :=
  ⟨reported_iff, parseReports_iff bytes⟩

/-- A file with a misspelt section is accepted, and a misspelt key leaves an entry. -/
theorem not_reported_misspelt :
    ¬ParseReports (ascii "[errinj_oops]\nprobability = 100\n") [] (fun _ => {}) ∧
      ¬Reported {} [] (ascii "errinj_oops", ascii "probability", ascii "100") ∧
      ¬Reported {} [] (ascii "errinj_noop", ascii "probabilty", ascii "100") := by
  have hs : ascii "errinj_oops" ∉ ErrinjType.all.map errinjName := by decide
  refine ⟨?_, ?_, ?_⟩
  · have h : Conf.iniOptions (ascii "[errinj_oops]\nprobability = 100\n") =
        [(ascii "errinj_oops", ascii "probability", ascii "100")] := by decide
    have hz : (Conf.iniParse Conf.record (some (ascii "[errinj_oops]\nprobability = 100\n")) []).1 =
        0 := by decide
    rw [parseReports_iff, h]
    intro hr
    refine hs (hr hz (fun i o ho hp => ?_) 0 _ rfl).1.1
    obtain ⟨hi, rfl⟩ := List.getElem?_eq_some_iff.mp ho
    obtain rfl : i = 0 := Nat.lt_one_iff.mp hi
    exact absurd hp.1 hs
  · rw [reported_iff]
    exact fun h => hs h.1.1
  · rw [reported_iff]
    rintro ⟨-, h | ⟨-, e, he, -⟩⟩
    · exact absurd (storable_key h) (by decide)
    · cases he

end UnreliableFS
