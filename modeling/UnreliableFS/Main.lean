import UnreliableFS.Lexical.Escaped
import UnreliableFS.Posix.Kernel

/-!
# Starting up

`main` of `unreliablefs.c`, up to `fuse_main`: the option that loads the `subdir`
module over the base directory, the path of the configuration and the list it
starts with. The module gets the base directory as it was given, the path is made
from the real one; the operations see the paths that the module makes. `libfuse`
and `realpath` are parameters, with what `main` relies on.
-/

namespace UnreliableFS

open Lexical Posix

abbrev comma : UInt8 := 44
abbrev backslash : UInt8 := 92

def DEFAULT_CONF_NAME : CStr := ascii "unreliablefs.conf"

structure Host (β : Type) where
  os : OS β
  isDir : β → CStr → Bool
  realpath : β → CStr → Option CStr
  /-- Only the root ends in a slash. -/
  realpath_last : ∀ b path real, realpath b path = some real → real ≠ [slash] →
    real.getLast? ≠ some slash

structure Libfuse where
  /-- The directory that the `subdir` module is given by a `-o` argument. -/
  subdir : CStr → CStr
  /-- The path it makes of a directory and a request's path. -/
  path : CStr → CStr → CStr
  /-- In an argument, commas and backslashes are not taken for themselves. -/
  subdir_plain : ∀ dir, comma ∉ dir → backslash ∉ dir →
    subdir (ascii "-omodules=subdir,subdir=" ++ dir) = dir
  path_eq : ∀ dir request, path dir (slash :: request) =
    (if dir.getLast? = some slash then dir else dir ++ [slash]) ++ request

structure Mount where
  subdirOption : CStr
  configPath : CStr
  errors : Option (List ErrinjConf)

inductive Startup
  | failure
  /-- `subdir_option` has been written past its end. -/
  | overflow
  | mounted (m : Mount)

def subdirOption (basedir : CStr) : CStr := ascii "-omodules=subdir,subdir=" ++ basedir

variable {β : Type} (H : Host β) (L : Libfuse) (b : β)

/-- `"/"` unless `-basedir` is given. -/
def main (basedir? : Option CStr) : Startup :=
  let basedir := basedir?.getD [slash]
  if ¬H.isDir b basedir then .failure
  else if Tree.PATH_MAX < (subdirOption basedir).length + 1 then .overflow
  else match H.realpath b basedir with
    | none => .failure
    | some real =>
      let configPath := real ++ slash :: DEFAULT_CONF_NAME
      .mounted ⟨subdirOption basedir, configPath, H.os.loaded b configPath⟩

/-- The path of the configuration is the one that the operations get for it, and
for nothing else. -/
structure Recognises (m : Mount) : Prop where
  config : L.path (L.subdir m.subdirOption) (slash :: DEFAULT_CONF_NAME) = m.configPath
  only : ∀ request, L.path (L.subdir m.subdirOption) (slash :: request) = m.configPath →
    request = DEFAULT_CONF_NAME

variable {H L b} {basedir? : Option CStr} {basedir real : CStr}

theorem main_mounted (hb : basedir?.getD [slash] = basedir) (hdir : H.isDir b basedir = true)
    (hreal : H.realpath b basedir = some real) {m : Mount} : main H b basedir? = .mounted m ↔
      (subdirOption basedir).length < Tree.PATH_MAX ∧ m = ⟨subdirOption basedir,
        real ++ slash :: DEFAULT_CONF_NAME, H.os.loaded b (real ++ slash :: DEFAULT_CONF_NAME)⟩ := by
  simp only [main, hb, hdir, not_true_eq_false, ↓reduceIte, hreal]
  by_cases h : Tree.PATH_MAX < (subdirOption basedir).length + 1
  · simp only [h, ↓reduceIte, reduceCtorEq, false_iff, not_and]
    omega
  · simp only [h, ↓reduceIte, Startup.mounted.injEq, eq_comm, iff_and_self]
    omega

theorem recognises_iff (hlast : real ≠ [slash] → real.getLast? ≠ some slash)
    {errors : Option (List ErrinjConf)} {option : CStr} :
    Recognises L ⟨option, real ++ slash :: DEFAULT_CONF_NAME, errors⟩ ↔
      L.subdir option = real ++ [slash] ∨ L.subdir option = real ∧ real ≠ [slash] := by
  have hconf (request : CStr) : L.path (L.subdir option) (slash :: request) =
      real ++ slash :: DEFAULT_CONF_NAME ↔
        (if (L.subdir option).getLast? = some slash then L.subdir option
          else L.subdir option ++ [slash]) ++ request = (real ++ [slash]) ++ DEFAULT_CONF_NAME := by
    rw [L.path_eq, List.append_assoc real, List.singleton_append]
  have hdir : (if (L.subdir option).getLast? = some slash then L.subdir option
      else L.subdir option ++ [slash]) = real ++ [slash] ↔
        L.subdir option = real ++ [slash] ∨ L.subdir option = real ∧ real ≠ [slash] := by
    by_cases hs : (L.subdir option).getLast? = some slash
    · rw [if_pos hs]
      refine ⟨.inl, fun h => ?_⟩
      obtain h | ⟨h, hr⟩ := h
      · exact h
      · rw [h] at hs
        exact absurd hs (hlast hr)
    · rw [if_neg hs, List.append_cancel_right_eq]
      refine ⟨fun h => .inr ⟨h, ?_⟩, fun h => ?_⟩
      · rintro rfl
        rw [h] at hs
        exact hs rfl
      · obtain h | ⟨h, -⟩ := h
        · rw [h, List.getLast?_append] at hs
          exact absurd rfl hs
        · exact h
  rw [← hdir]
  constructor
  · intro h
    exact List.append_cancel_right ((hconf _).mp h.config)
  · intro h
    refine ⟨(hconf _).mpr (by rw [h]), fun request hr => ?_⟩
    have he := (hconf request).mp hr
    rw [h] at he
    exact List.append_cancel_left he

/-- For a base directory that `main` accepts, the file system starts and knows
its configuration exactly if the option fits into its buffer and the directory
that is left of it is the real one, or the real one and a slash; and without a
comma and a backslash that is the base directory as it was given. -/
theorem config_recognised_iff (H : Host β) (L : Libfuse) (b : β) (basedir? : Option CStr)
    (basedir real : CStr) (hb : basedir?.getD [slash] = basedir) (hdir : H.isDir b basedir = true)
    (hreal : H.realpath b basedir = some real) :
    ((∃ m, main H b basedir? = .mounted m ∧ Recognises L m) ↔
      (subdirOption basedir).length < Tree.PATH_MAX ∧
        (L.subdir (subdirOption basedir) = real ++ [slash] ∨
          L.subdir (subdirOption basedir) = real ∧ real ≠ [slash])) ∧
    (comma ∉ basedir → backslash ∉ basedir → L.subdir (subdirOption basedir) = basedir) := by
  refine ⟨⟨?_, ?_⟩, fun hc hs => L.subdir_plain basedir hc hs⟩
  · rintro ⟨m, hm, hr⟩
    obtain ⟨hfits, rfl⟩ := (main_mounted hb hdir hreal).mp hm
    exact ⟨hfits, (recognises_iff (H.realpath_last b basedir real hreal)).mp hr⟩
  · rintro ⟨hfits, hr⟩
    exact ⟨_, (main_mounted hb hdir hreal).mpr ⟨hfits, rfl⟩,
      (recognises_iff (H.realpath_last b basedir real hreal)).mpr hr⟩

def plainLibfuse : Libfuse where
  subdir := (·.drop 24)
  path := fun dir request =>
    (if dir.getLast? = some slash then dir else dir ++ [slash]) ++ request.drop 1
  subdir_plain := fun _ _ _ => rfl
  path_eq := fun _ _ => rfl

def smallHost : Host Base where
  os := posix .small
  isDir := fun _ path => path ∈ [ascii "/", ascii "/tmp", ascii "/link"]
  realpath := fun _ path => if path = ascii "/link" then some (ascii "/tmp")
    else if path ∈ [ascii "/", ascii "/tmp"] then some path else none
  realpath_last := by
    intro b path real h hr
    simp only [List.mem_cons, List.not_mem_nil, or_false] at h
    split at h
    · cases h
      decide
    · split at h
      · rename_i hp
        cases h
        obtain rfl | rfl := hp
        · exact absurd rfl hr
        · decide
      · cases h

theorem config_recognised_tmp : ∃ m,
    main smallHost (.boot .root) (some (ascii "/tmp")) = .mounted m ∧ Recognises plainLibfuse m := by
  have h := config_recognised_iff smallHost plainLibfuse (.boot .root) (some (ascii "/tmp"))
    (ascii "/tmp") (ascii "/tmp") rfl (by decide) (by decide)
  exact h.1.mpr ⟨by decide, .inr ⟨h.2 (by decide) (by decide), by decide⟩⟩

/-- The root, which is the default, is not: the path has two slashes. -/
theorem not_recognised_root : ∃ m, main smallHost (.boot .root) none = .mounted m ∧
    ¬Recognises plainLibfuse m := by
  refine ⟨⟨subdirOption [slash], ascii "//unreliablefs.conf", some []⟩, by rfl, fun h => ?_⟩
  exact absurd h.config (by decide)

-- ---------------------------------------------------------------------------
-- The option, read back
-- ---------------------------------------------------------------------------

def optionsOf (E : Escapes UInt8) : CStr → List CStr
  | 45 :: 111 :: group => split E comma backslash 0 [] group
  | _ => []

def subdirOptions (basedir : CStr) : List CStr :=
  [ascii "modules=subdir", ascii "subdir=" ++ basedir]

theorem optionsOf_subdirOption (E : Escapes UInt8) (basedir : CStr) :
    optionsOf E (subdirOption basedir) =
      ascii "modules=subdir" :: split E comma backslash 0 [] (ascii "subdir=" ++ basedir) := by
  have h : subdirOption basedir =
      45 :: 111 :: (ascii "modules=subdir" ++ comma :: (ascii "subdir=" ++ basedir)) := rfl
  rw [h]
  exact split_append_sep (by decide) (by decide)

theorem options_survive_iff (E : Escapes UInt8) (basedir : CStr) :
    optionsOf E (subdirOption basedir) = subdirOptions basedir ↔
      comma ∉ basedir ∧ backslash ∉ basedir.dropLast := by
  have hsplit : split E comma backslash 0 [] (ascii "subdir=" ++ basedir) =
      [ascii "subdir=" ++ basedir] ↔ comma ∉ ascii "subdir=" ++ basedir ∧
        backslash ∉ (ascii "subdir=" ++ basedir).dropLast :=
    split_eq_singleton_iff (by decide)
  have hcomma : comma ∉ ascii "subdir=" ++ basedir ↔ comma ∉ basedir := by
    have h : comma ∉ ascii "subdir=" := by decide
    simp only [List.mem_append, h, false_or]
  have hback : backslash ∉ (ascii "subdir=" ++ basedir).dropLast ↔ backslash ∉ basedir.dropLast := by
    cases basedir with
    | nil => decide
    | cons c s =>
      have h : backslash ∉ ascii "subdir=" := by decide
      simp only [List.dropLast_append_of_ne_nil (List.cons_ne_nil c s), List.mem_append, h, false_or]
  rw [optionsOf_subdirOption, subdirOptions, List.cons.injEq, hsplit, hcomma, hback]
  simp

theorem main_ne_overflow {b : β} (hb : basedir?.getD [slash] = basedir)
    (hdir : H.isDir b basedir = true) :
    main H b basedir? ≠ .overflow ↔ (subdirOption basedir).length + 1 ≤ Tree.PATH_MAX := by
  simp only [main, hb, hdir, not_true_eq_false, ↓reduceIte]
  split
  · rename_i h
    simp only [ne_eq, not_true_eq_false, false_iff]
    omega
  · rename_i h
    have hle : (subdirOption basedir).length + 1 ≤ Tree.PATH_MAX := by omega
    split
    · simp [hle]
    · simp [hle]

/-- The base directory that `main` accepts reaches the module as it was given,
through a text that fits into its buffer, exactly if it leaves room for the rest
of the text and nothing in it is a comma or an escape. -/
theorem basedir_survives_iff (H : Host β) (b : β) (E : Escapes UInt8) (basedir? : Option CStr)
    (basedir : CStr) (hb : basedir?.getD [slash] = basedir) (hdir : H.isDir b basedir = true) :
    main H b basedir? ≠ .overflow ∧
        optionsOf E (subdirOption basedir) = subdirOptions basedir ↔
      basedir.length ≤ 4071 ∧ comma ∉ basedir ∧ backslash ∉ basedir.dropLast := by
  have hlength : (subdirOption basedir).length = basedir.length + 24 := by
    simp [subdirOption, ascii]
  rw [main_ne_overflow hb hdir, options_survive_iff, hlength]
  refine and_congr_left' ?_
  simp only [Tree.PATH_MAX]
  omega

def plainEscapes : Escapes UInt8 where
  value s := s.headD 0
  more _ := 0

theorem basedir_survives_tmp : main smallHost (.boot .root) (some (ascii "/tmp")) ≠ .overflow ∧
    optionsOf plainEscapes (subdirOption (ascii "/tmp")) = subdirOptions (ascii "/tmp") :=
  (basedir_survives_iff smallHost (.boot .root) plainEscapes (some (ascii "/tmp")) (ascii "/tmp") rfl
    (by decide)).mpr (by decide)

/-- The directory `/a,b` does not: the module gets `/a`. -/
theorem basedir_lost_to_comma : ∃ H : Host Base, H.isDir (.boot .root) (ascii "/a,b") = true ∧
    main H (.boot .root) (some (ascii "/a,b")) ≠ .overflow ∧
    optionsOf plainEscapes (subdirOption (ascii "/a,b")) =
      [ascii "modules=subdir", ascii "subdir=/a", ascii "b"] ∧
    optionsOf plainEscapes (subdirOption (ascii "/a,b")) ≠ subdirOptions (ascii "/a,b") := by
  let H : Host Base := { smallHost with isDir := fun _ path => path = ascii "/a,b" }
  refine ⟨H, by decide, (main_ne_overflow rfl (by decide)).mpr (by decide), by decide, by decide⟩

/-- With these escapes the module's directory is what the theorem about the
configuration takes it for. -/
def Libfuse.escaped (E : Escapes UInt8) : Libfuse where
  subdir arg := ((optionsOf E arg).getLastD []).drop (ascii "subdir=").length
  path := plainLibfuse.path
  subdir_plain dir hcomma hback := by
    have h := (options_survive_iff E dir).mpr ⟨hcomma, fun h => hback (List.dropLast_subset _ h)⟩
    rw [subdirOption] at h
    rw [h]
    exact List.drop_left
  path_eq := plainLibfuse.path_eq

end UnreliableFS
