import UnreliableFS.Interaction.Reach
import UnreliableFS.Posix.Resolve

/-!
# The AFS server

`unreliable_afs_server.cc`: the service answers a `Mkdir` request with a `mkdir`
of its base directory's text followed by the request's. Nothing keeps the result
below the base directory; when it is there, and what a run of requests that all
lead there makes, is what this module is about.
-/

namespace UnreliableFS

open Interaction Posix Lexical

structure MkdirRequest where
  path : CStr
  mode : Int

structure MkdirReply where
  err : Int := 0
  deriving DecidableEq, Repr

/-- `server_base_directory`, an argument of the command line that names a directory. -/
structure BaseDirectory where
  text : CStr
  ne_nil : text ≠ []
  noNul : 0 ∉ text

namespace AfsServer

def path (server_base_directory : CStr) (request : MkdirRequest) : CStr :=
  cstr (server_base_directory ++ request.path)

def mkdir (server_base_directory : CStr) (request : MkdirRequest) : Body MkdirReply := do
  let res ← sys (.mkdir (path server_base_directory request) (toUnsigned request.mode))
  if res = -1 then return { err := -(← errno) }
  return { err := res }

def serve (P : Platform) (base : BaseDirectory) : Machine Base MkdirRequest MkdirReply :=
  fun b request => ((mkdir base.text request Local.zero).run (kernel P) b).map fun r => (r.1.1, r.2)

def calls (P : Platform) (base : BaseDirectory) (b : Base) (request : MkdirRequest) :
    List (Event sysSig Base) :=
  (mkdir base.text request Local.zero).trace (kernel P) b

-- ---------------------------------------------------------------------------
-- One request
-- ---------------------------------------------------------------------------

variable {P : Platform} {base : BaseDirectory} {b b' : Base} {request : MkdirRequest}

theorem calls_eq : calls P base b request =
    [⟨b, .mkdir (path base.text request) (toUnsigned request.mode),
      (kernel P (.mkdir (path base.text request) (toUnsigned request.mode)) b).1⟩] := by
  unfold calls mkdir
  rw [Body.bind_apply]
  rcases h : (kernel P (.mkdir (path base.text request) (toUnsigned request.mode)) b).1 with e | ⟨ret, d⟩
  · rw [sys_trace_fail h]
    rfl
  · rw [sys_trace_done h]
    split
    · rfl
    · rfl

theorem serve_base {reply : MkdirReply} (h : serve P base b request = some (reply, b')) :
    b' = (kernel P (.mkdir (path base.text request) (toUnsigned request.mode)) b).2 := by
  unfold serve mkdir at h
  rw [Body.bind_apply] at h
  obtain ⟨r, hr, he⟩ := Option.map_eq_some_iff.mp h
  cases he
  rcases hk : (kernel P (.mkdir (path base.text request) (toUnsigned request.mode)) b).1 with e | ⟨ret, d⟩
  · rw [sys_run_fail hk] at hr
    cases hr
    rfl
  · rw [sys_run_done hk] at hr
    split at hr
    · cases hr
      rfl
    · cases hr
      rfl

theorem path_eq (base : BaseDirectory) (request : MkdirRequest) :
    path base.text request = base.text ++ cstr request.path := by
  unfold path cstr
  refine List.takeWhile_append_of_pos fun c hc => ?_
  have hne : c ≠ 0 := by
    rintro rfl
    exact base.noNul hc
  simpa using hne

-- ---------------------------------------------------------------------------
-- Where it leads
-- ---------------------------------------------------------------------------

def lastSlash (s : CStr) : CStr × CStr :=
  ((s.reverse.dropWhile (· ≠ slash)).reverse, (s.reverse.takeWhile (· ≠ slash)).reverse)

/-- There is a slash between the base directory and the request. -/
def Joined (base request : CStr) : Prop := base.getLast? = some slash ∨ request.head? = some slash

/-- After the steps up that the names of the request do not account for come the
names that led there from above, and one more at least. -/
def StaysBelow (at_ : Place) (request : CStr) : Prop :=
  Below (net (steps request)).names (at_.drop (at_.length - (net (steps request)).climbs))

/-- Without a slash the last component of the base directory and the first of
the request are one component of the directory the former is in. -/
def GluedBelow (dir : Place) (last request : CStr) : Prop :=
  let n := net (steps (last ++ request))
  let m := net (steps last)
  Below ((dir.take (dir.length - n.climbs)).drop (dir.length - m.climbs) ++ n.names)
    ((dir.take (dir.length - m.climbs)).drop (dir.length - n.climbs) ++ m.names)

structure Confined (cwd : Place) (base request : CStr) : Prop where
  joined : Joined base request → StaysBelow (location cwd base) request
  glued : ¬Joined base request →
    GluedBelow (walk (start cwd base) (steps (lastSlash base).1)) (lastSlash base).2 request

theorem location_of_joined {base request : CStr} (hb : base ≠ []) (h : Joined base request)
    (cwd : Place) : location cwd (base ++ request) = walk (location cwd base) (steps request) := by
  unfold location
  rw [start_append hb, ← walk_append]
  congr 1
  obtain h | h := h
  · obtain ⟨a, rfl⟩ := List.getLast?_eq_some_iff.mp h
    have ha := steps_append_slash a []
    rw [List.append_assoc, List.singleton_append, steps_append_slash, ha, List.append_assoc]
    rfl
  · obtain ⟨r, rfl⟩ : ∃ r, request = slash :: r := by
      cases request with
      | nil => cases h
      | cons c r => exact ⟨r, by simpa using h⟩
    have hr : steps (slash :: r) = steps r := steps_append_slash [] r
    rw [steps_append_slash, hr]

theorem lastSlash_append (s : CStr) : (lastSlash s).1 ++ (lastSlash s).2 = s := by
  unfold lastSlash
  rw [← List.reverse_append, List.takeWhile_append_dropWhile, List.reverse_reverse]

theorem steps_lastSlash (s t : CStr) :
    steps (s ++ t) = steps (lastSlash s).1 ++ steps ((lastSlash s).2 ++ t) := by
  conv_lhs => rw [← lastSlash_append s, List.append_assoc]
  generalize (lastSlash s).2 ++ t = u
  have hdir : (lastSlash s).1 = [] ∨ ∃ a, (lastSlash s).1 = a ++ [slash] := by
    unfold lastSlash
    cases h : s.reverse.dropWhile (· ≠ slash) with
    | nil => exact .inl rfl
    | cons c r =>
      have hc := List.head?_dropWhile_not (· ≠ slash) s.reverse
      rw [h] at hc
      exact .inr ⟨r.reverse, by simpa using hc⟩
  obtain h | ⟨a, h⟩ := hdir
  · rw [h]
    rfl
  · have ha := steps_append_slash a []
    rw [h, List.append_assoc, List.singleton_append, steps_append_slash, ha, List.append_assoc]
    rfl

theorem below_iff_confined {base request : CStr} (hb : base ≠ []) (cwd : Place) :
    Below (location cwd (base ++ request)) (location cwd base) ↔ Confined cwd base request := by
  by_cases h : Joined base request
  · rw [location_of_joined hb h, below_walk_iff]
    exact ⟨fun hs => ⟨fun _ => hs, fun hn => absurd h hn⟩, fun hc => hc.joined h⟩
  · have hl : Below (location cwd (base ++ request)) (location cwd base) ↔
        GluedBelow (walk (start cwd base) (steps (lastSlash base).1)) (lastSlash base).2 request := by
      have hbase := steps_lastSlash base []
      rw [List.append_nil, List.append_nil] at hbase
      unfold location GluedBelow
      rw [start_append hb, steps_lastSlash, hbase, walk_append, walk_append, walk_eq_from _ (steps _),
        walk_eq_from _ (steps (lastSlash base).2), Net.below_from_iff]
    rw [hl]
    exact ⟨fun hs => ⟨fun hj => absurd hj h, fun _ => hs⟩, fun hc => hc.glued h⟩

theorem serve_tree {reply : MkdirReply} (hl : b.tree.NoLinks)
    (h : serve P base b request = some (reply, b')) : b'.cwd = b.cwd ∧ b'.tree.NoLinks ∧
      ∀ e ∈ b'.tree.names, e ∈ b.tree.names ∨ e.1 = location b.cwd (path base.text request) := by
  rw [serve_base h]
  simp only [kernel]
  cases hm : b.tree.mkdir b.cwd (path base.text request) (toUnsigned request.mode) with
  | error e => exact ⟨rfl, hl, fun e he => .inl he⟩
  | ok t =>
    obtain ⟨hl', hn⟩ := hl.mkdir hm
    refine ⟨rfl, hl', fun e he => ?_⟩
    have he : e ∈ t.names := he
    rw [hn] at he
    obtain rfl | he := List.mem_cons.mp he
    · exact .inr rfl
    · exact .inl he

/-- The directory of a request is strictly below the base directory exactly if
the request is confined; and a run of such requests makes nothing outside it. -/
theorem mkdir_below_iff_confined (P : Platform) (base : BaseDirectory) :
    (∀ (b : Base) (request : MkdirRequest), ∃ path mode reply,
      calls P base b request = [⟨b, .mkdir path mode, reply⟩] ∧
      (Below (location b.cwd path) (location b.cwd base.text) ↔
        Confined b.cwd base.text (cstr request.path))) ∧
    ∀ (b b' : Base), b.tree.NoLinks → Reachable (serve P base)
      (fun b request => Confined b.cwd base.text (cstr request.path)) b b' →
      ∀ e ∈ b'.tree.names, e ∈ b.tree.names ∨ Below e.1 (location b.cwd base.text) := by
  constructor
  · intro b request
    refine ⟨_, _, _, calls_eq, ?_⟩
    rw [path_eq]
    exact below_iff_confined base.ne_nil b.cwd
  · intro b b' hl h
    have hinv : b'.cwd = b.cwd ∧ b'.tree.NoLinks ∧
        ∀ e ∈ b'.tree.names, e ∈ b.tree.names ∨ Below e.1 (location b.cwd base.text) := by
      refine h.invariant (I := fun c => c.cwd = b.cwd ∧ c.tree.NoLinks ∧
        ∀ e ∈ c.tree.names, e ∈ b.tree.names ∨ Below e.1 (location b.cwd base.text))
        (fun c request reply c' hc hg hs => ?_) ⟨rfl, hl, fun e he => .inl he⟩
      obtain ⟨hcwd, hlinks, hnames⟩ := hc
      obtain ⟨hcwd', hlinks', hnew⟩ := serve_tree hlinks hs
      refine ⟨hcwd'.trans hcwd, hlinks', fun e he => ?_⟩
      obtain he | he := hnew e he
      · exact hnames e he
      · rw [he, path_eq, hcwd]
        exact .inr ((below_iff_confined base.ne_nil _).mpr (hcwd ▸ hg))
    exact hinv.2.2

def srv : BaseDirectory := ⟨ascii "/srv", by decide, by decide⟩

def srvTree : Tree where
  names := [([ascii "srv"], 1), ([], 0)]
  node := fun _ => { content := .directory }
  next := 2
  lt_next := by decide

theorem srvTree_noLinks : srvTree.NoLinks := by
  intro p target h
  obtain ⟨i, -, hi⟩ := Option.map_eq_some_iff.mp h
  cases hi

theorem confined_name : Confined [] srv.text (ascii "/d") where
  joined _ := by
    have hn : (net (steps (ascii "/d"))).names = [ascii "d"] := by rfl
    have ha : (location [] srv.text).drop
        ((location [] srv.text).length - (net (steps (ascii "/d"))).climbs) = [] := by decide
    unfold StaysBelow
    rw [hn, ha]
    exact ⟨[ascii "d"], by simp, rfl⟩
  glued h := absurd (.inr (by decide)) h

theorem mkdir_below_of_name : ∃ b' : Base, ([ascii "srv", ascii "d"], 2) ∈ b'.tree.names ∧
    ∀ e ∈ b'.tree.names, e ∈ (Base.boot srvTree).tree.names ∨ Below e.1 (location [] srv.text) := by
  let request : MkdirRequest := ⟨ascii "/d", 0o755⟩
  obtain ⟨⟨reply, b'⟩, hs⟩ := Option.isSome_iff_exists.mp
    (by decide : (serve .small srv (.boot srvTree) request).isSome)
  have hn : (serve .small srv (.boot srvTree) request).map (fun r => r.2.tree.names.head?) =
      some (some ([ascii "srv", ascii "d"], 2)) := by decide
  rw [hs] at hn
  refine ⟨b', List.mem_of_mem_head? (Option.some.inj hn), ?_⟩
  exact (mkdir_below_iff_confined .small srv).2 (.boot srvTree) b' srvTree_noLinks
    (.step (i := request) .refl confined_name hs)

def srvAfs : BaseDirectory := ⟨ascii "/srv/afs", by decide, by decide⟩

/-- A request for `/../x` leads out of the base directory. -/
theorem not_below_of_dotdot : ∃ (b : Base) (request : MkdirRequest) (reply : SysReply),
    calls .small srvAfs b request = [⟨b, .mkdir (ascii "/srv/afs/../x") 0o755, reply⟩] ∧
    ¬Below (location b.cwd (ascii "/srv/afs/../x")) (location b.cwd srvAfs.text) := by
  refine ⟨.boot .root, ⟨ascii "/../x", 0o755⟩, _, calls_eq, ?_⟩
  have hx : location (Base.boot .root).cwd (ascii "/srv/afs/../x") = [ascii "srv", ascii "x"] := by
    decide
  have hb : location (Base.boot .root).cwd srvAfs.text = [ascii "srv", ascii "afs"] := by decide
  rw [hx, hb]
  rintro ⟨rest, -, h⟩
  have hname := congrArg (·[1]?) h
  exact absurd hname (by simp [ascii])

end AfsServer

end UnreliableFS
