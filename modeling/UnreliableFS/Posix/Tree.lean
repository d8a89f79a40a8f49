import UnreliableFS.Extent
import UnreliableFS.Sys
import Mathlib.Logic.Function.Basic

/-!
# The base file system

Objects with their contents and attributes, and a tree of names over them. A
`Place` is where a name stands, as the names from the root down; a path is
resolved to a place component by component, following symbolic links. Of the
permission bits only those to read and to write a file are checked. Times are
those that the calls on attributes set and mark; contents and names that change
mark none.
-/

namespace UnreliableFS.Posix

abbrev Ino := Nat
abbrev Place := List CStr

inductive Content
  | regular (data : List UInt8)
  | directory
  | symlink (target : CStr)
  | special
  deriving DecidableEq, Repr

structure Node where
  content : Content
  mode : Nat := 0o644
  uid : Nat := 0
  gid : Nat := 0
  atime : Int := 0
  mtime : Int := 0
  ctime : Int := 0
  xattrs : List (CStr × List UInt8) := []
  deriving DecidableEq, Repr

/-- `uid` and `gid` are those of the daemon, whose calls these are. -/
structure Tree where
  names : List (Place × Ino)
  node : Ino → Node
  next : Ino
  clock : Int := 0
  uid : Nat := 0
  gid : Nat := 0
  lt_next : ∀ e ∈ names, e.2 < next

def refuse (c : Prop) [Decidable c] (e : Errno) : Except Errno Unit :=
  if c then .error e else .ok ()

-- ---------------------------------------------------------------------------
-- Paths
-- ---------------------------------------------------------------------------

def dot : CStr := ascii "."
def dotdot : CStr := ascii ".."

/-- The pieces of a path between its slashes. -/
def components : CStr → List CStr
  | [] => [[]]
  | c :: s =>
    if c = slash then [] :: components s
    else match components s with
      | [] => [[c]]
      | w :: ws => (c :: w) :: ws

def start (cwd : Place) (path : CStr) : Place :=
  if path.head? = some slash then [] else cwd

namespace Tree

variable (t : Tree)

def at? (p : Place) : Option Ino := t.names.lookup p

def contentAt (p : Place) : Option Content := (t.at? p).map fun i => (t.node i).content

/-- Components from a place on; `again` goes on after a symbolic link. The last
component need not exist. -/
def walkFrom (follow : Bool) (again : Place → List CStr → Except Errno Place) :
    Place → List CStr → Except Errno Place
  | cur, [] => .ok cur
  | cur, c :: cs =>
    match t.contentAt cur with
    | some .directory =>
      if c = [] ∨ c = dot then walkFrom follow again cur cs
      else if c = dotdot then walkFrom follow again cur.dropLast cs
      else match t.contentAt (cur ++ [c]) with
        | some (.symlink target) =>
          if cs = [] ∧ follow = false then .ok (cur ++ [c])
          else again (start cur target) (components target ++ cs)
        | some _ => walkFrom follow again (cur ++ [c]) cs
        | none => if cs.all (· = []) then .ok (cur ++ [c]) else .error .ENOENT
    | some _ => .error .ENOTDIR
    | none => .error .ENOENT

def walk (follow : Bool) : Nat → Place → List CStr → Except Errno Place
  | 0 => t.walkFrom follow fun _ _ => .error .ELOOP
  | links + 1 => t.walkFrom follow (walk follow links)

def MAXSYMLINKS : Nat := 40

def resolve (cwd : Place) (follow : Bool) (path : CStr) : Except Errno Place :=
  if path = [] then .error .ENOENT
  else t.walk follow MAXSYMLINKS (start cwd path) (components path)

def find (cwd : Place) (follow : Bool) (path : CStr) : Except Errno (Place × Ino) := do
  let p ← t.resolve cwd follow path
  match t.at? p with
  | some i => return (p, i)
  | none => throw .ENOENT

/-- The place a new name would stand at; only a directory's may end in a slash. -/
def vacant (cwd : Place) (path : CStr) (slashed : Bool) : Except Errno Place := do
  let p ← t.resolve cwd false path
  match t.at? p with
  | some _ => throw .EEXIST
  | none => if path.getLast? = some slash ∧ ¬slashed then throw .ENOENT else return p

def children (p : Place) : List (CStr × Ino) :=
  t.names.filterMap fun e =>
    match e.1.getLast? with
    | some name => if e.1.dropLast = p then some (name, e.2) else none
    | none => none

-- ---------------------------------------------------------------------------
-- Changes
-- ---------------------------------------------------------------------------

def add (p : Place) (n : Node) : Tree :=
  { t with
    names := (p, t.next) :: t.names
    node := Function.update t.node t.next n
    next := t.next + 1
    lt_next := by
      intro e he
      rcases List.mem_cons.mp he with rfl | he
      · exact Nat.lt_succ_self _
      · exact Nat.lt_succ_of_lt (t.lt_next e he) }

def bind (p q : Place) : Tree :=
  match h : t.at? q with
  | none => t
  | some i =>
    { t with
      names := (p, i) :: t.names
      lt_next := by
        intro e he
        rcases List.mem_cons.mp he with rfl | he
        · rw [at?, List.lookup_eq_some_iff] at h
          obtain ⟨l₁, l₂, hl, -⟩ := h
          have hm : (q, i) ∈ t.names := by simp [hl]
          exact t.lt_next (q, i) hm
        · exact t.lt_next e he }

def remove (p : Place) : Tree :=
  { t with
    names := t.names.filter fun e => e.1 ≠ p
    lt_next := fun e he => t.lt_next e (List.mem_filter.mp he).1 }

/-- Where an entry of the tree stands after `old` is renamed to `new`. -/
def moved (old new : Place) (e : Place × Ino) : Place × Ino :=
  if old.isPrefixOf e.1 then (new ++ e.1.drop old.length, e.2) else e

def move (old new : Place) : Tree :=
  { t with
    names := (t.names.filter fun e => !new.isPrefixOf e.1).map (moved old new)
    lt_next := by
      intro e he
      obtain ⟨e', he', rfl⟩ := List.mem_map.mp he
      have h := t.lt_next e' (List.mem_filter.mp he').1
      unfold moved
      split <;> exact h }

def modify (i : Ino) (f : Node → Node) : Tree :=
  { t with node := Function.update t.node i (f (t.node i)) }

def setData (i : Ino) (data : List UInt8) : Tree :=
  t.modify i fun n => { n with content := .regular data }

/-- Whether the daemon may read (4) or write (2) an object. -/
def permits (n : Node) (bit : Nat) : Bool :=
  t.uid = 0 ||
    (n.mode >>> (if t.uid = n.uid then 6 else if t.gid = n.gid then 3 else 0)) &&& bit ≠ 0

def nlink (i : Ino) : Nat := (t.names.filter fun e => e.2 = i).length

def stat (i : Ino) : Stat where
  ino := i
  mode := (t.node i).mode
  nlink := t.nlink i
  uid := (t.node i).uid
  gid := (t.node i).gid
  size := match (t.node i).content with
    | .regular data => data.length
    | .symlink target => target.length
    | _ => 0
  atime := (t.node i).atime
  mtime := (t.node i).mtime
  ctime := (t.node i).ctime

end Tree

end UnreliableFS.Posix
