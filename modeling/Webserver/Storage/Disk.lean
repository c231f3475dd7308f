import Webserver.Http.Messages
import Webserver.Library.LexicalPaths
import Webserver.Library.SortedMaps
import Mathlib.Data.List.Lex
import Mathlib.Data.Char

namespace Webserver
namespace Storage

open LexicalPaths

/-!
# The operating system's file tree

The storage under the program is a finite tree of directories and regular
files.  A file is a byte string.  Its content changes only by truncation on
opening for output and by writing.  A node is addressed by the names on the
way to it from the root; a relative path string starts at `cwd`.  Path strings
contain no NUL, and there are no symbolic links: a path string that leads
anywhere leads to its `key`.  It leads there only if every name on the way is
looked up in a directory that is there, also one that `..` leaves again.

`closed` makes every node's parent a directory.  The two update operations
keep it, so no later statement has to assume it.

`Environment` holds what the operating system decides for itself: whether it
refuses to create a directory, to open a file for output or to remove one, how
many bytes it stores before a write fails, and in which order it lists names.
Reading a file and listing a directory that are there is never refused.
-/

/-- The names from the root directory down to a node. -/
abbrev Key := List Name

inductive Node where
  | directory
  | file (content : Text)
deriving DecidableEq

structure Disk where
  cwd : Key
  nodes : SortedMap Key Node
  closed : forall key node, nodes.lookup key = some node ->
    key ≠ [] ∧ (key.dropLast = [] ∨ nodes.lookup key.dropLast = some .directory)

/-- The choices of the operating system during one operation. -/
structure Environment where
  /-- How many directories may be created before creation fails. -/
  mkdirBudget : Option Nat
  refusesOpen : Bool
  /-- How many bytes are stored before writing fails. -/
  writeLimit : Option Nat
  refusesRemove : Bool
  listingOrder : List Name -> List Name
  listingOrder_perm : forall names, (listingOrder names).Perm names

/-- The part of the data that is stored. -/
def Environment.stored (environment : Environment) (data : Text) : Text :=
  match environment.writeLimit with
  | none => data
  | some limit => data.take limit

theorem Environment.stored_of_complete {environment : Environment}
    (complete : environment.writeLimit = none) (data : Text) : environment.stored data = data := by
  rw [Environment.stored, complete]

theorem Environment.stored_nil (environment : Environment) : environment.stored [] = [] := by
  unfold Environment.stored
  split
  · rfl
  · exact List.take_nil

/-- An environment that refuses nothing and lists names in key order. -/
def Environment.willing : Environment where
  mkdirBudget := none
  refusesOpen := false
  writeLimit := none
  refusesRemove := false
  listingOrder := id
  listingOrder_perm := fun _ => List.Perm.refl _

namespace Disk

/-- The node at a key; the root directory always exists. -/
def node (disk : Disk) (key : Key) : Option Node :=
  if key = [] then some .directory else disk.nodes.lookup key

/-- The content of the regular file at a key. -/
def fileAt (disk : Disk) (key : Key) : Option Text :=
  match disk.node key with
  | some (.file content) => some content
  | _ => none

/-- Where the first name of a path string is looked up. -/
def start (disk : Disk) (path : Text) : Key :=
  if absolute path then [] else disk.cwd

/-- The key that a path string leads to, if it leads anywhere. -/
def key (disk : Disk) (path : Text) : Key :=
  resolveFrom true (disk.start path) (components path)

/-- Every name is looked up in a directory. -/
def walks (disk : Disk) : Key -> List Name -> Bool
  | _, [] => true
  | here, name :: rest =>
      decide (disk.node here = some .directory) && disk.walks (resolveStep true here name) rest

/-- Every name of the path string is looked up in a directory. -/
def reaches (disk : Disk) (path : Text) : Bool :=
  disk.walks (disk.start path) (components path)

/-- The path string can only name a directory. -/
def mustBeDirectory (path : Text) : Bool :=
  path.getLast? == some '/' || (components path).getLast? == some dot ||
    (components path).getLast? == some dotDot

/-- What the system finds under a path string. -/
def nodeAt (disk : Disk) (path : Text) : Option Node :=
  if path = [] || !disk.reaches path ||
      (mustBeDirectory path && decide (disk.node (disk.key path) ≠ some .directory)) then none
  else disk.node (disk.key path)

/-- The names that a directory holds. -/
def children (disk : Disk) (key : Key) : List Name :=
  disk.nodes.entries.filterMap (fun entry =>
    if entry.1.dropLast = key then entry.1.getLast? else none)

/-- An empty disk whose current directory is the root. -/
def empty : Disk where
  cwd := []
  nodes := SortedMap.empty
  closed := by
    intro key node stored
    cases stored

theorem closed_node (disk : Disk) {key : Key} {node : Node} (nonempty : key ≠ [])
    (stored : disk.node key = some node) : disk.node key.dropLast = some .directory := by
  rw [Disk.node, if_neg nonempty] at stored
  rcases (disk.closed key node stored).2 with top | parent
  · rw [Disk.node, if_pos top]
  · unfold Disk.node
    split
    · rfl
    · exact parent

theorem mem_children_iff (disk : Disk) (key : Key) (name : Name) :
    name ∈ disk.children key ↔ (disk.node (key ++ [name])).isSome := by
  have nonempty : key ++ [name] ≠ [] := by simp
  rw [Disk.node, if_neg nonempty, children, List.mem_filterMap]
  constructor
  · rintro ⟨⟨child, node⟩, member, found⟩
    by_cases parent : child.dropLast = key
    · rw [if_pos parent] at found
      rcases List.getLast?_eq_some_iff.mp found with ⟨front, rfl⟩
      rw [List.dropLast_concat] at parent
      subst parent
      rw [(disk.nodes.mem_entries_iff _ _).mp member]
      rfl
    · rw [if_neg parent] at found
      cases found
  · intro present
    rcases Option.isSome_iff_exists.mp present with ⟨node, stored⟩
    refine ⟨(key ++ [name], node), (disk.nodes.mem_entries_iff _ _).mpr stored, ?_⟩
    simp

/-- A key with something below it is that of a directory. -/
theorem directory_of_child {disk : Disk} {key : Key} {name : Name}
    (child : name ∈ disk.children key) : disk.node key = some .directory := by
  rcases Option.isSome_iff_exists.mp ((mem_children_iff _ _ _).mp child) with ⟨node, stored⟩
  have above := disk.closed_node (by simp) stored
  rwa [List.dropLast_concat] at above

theorem dropLast_ne_self {key : Key} (nonempty : key ≠ []) : key.dropLast ≠ key := by
  intro same
  have shorter := congrArg List.length same
  have positive := List.length_pos_iff.mpr nonempty
  rw [List.length_dropLast] at shorter
  omega

/-! ## Updates -/

/-- Put a node where a directory can hold it.  A directory is never replaced. -/
def place (disk : Disk) (key : Key) (node : Node) : Disk :=
  if fits : key ≠ [] ∧ disk.node key.dropLast = some .directory ∧
      disk.node key ≠ some .directory then
    { cwd := disk.cwd
      nodes := disk.nodes.assign key node
      closed := by
        intro other stored found
        rw [SortedMap.lookup_assign] at found
        by_cases same : key = other
        · subst same
          refine ⟨fits.1, ?_⟩
          by_cases top : key.dropLast = []
          · exact Or.inl top
          · have parent := fits.2.1
            rw [Disk.node, if_neg top] at parent
            rw [SortedMap.lookup_assign_of_ne _ (Ne.symm (dropLast_ne_self fits.1)), parent]
            exact Or.inr rfl
        · rw [if_neg same] at found
          have old := disk.closed other stored found
          refine ⟨old.1, old.2.imp_right ?_⟩
          intro parent
          by_cases above : key = other.dropLast
          · have occupied : disk.node key = some .directory := by
              rw [Disk.node, if_neg fits.1, above]
              exact parent
            exact absurd occupied fits.2.2
          · rw [SortedMap.lookup_assign_of_ne _ above, parent] }
  else disk

/-- Take a node away that has nothing below it. -/
def discard (disk : Disk) (key : Key) : Disk :=
  if removable : key ≠ [] ∧ disk.children key = [] then
    { cwd := disk.cwd
      nodes := disk.nodes.erase key
      closed := by
        intro other stored found
        rw [SortedMap.lookup_erase] at found
        by_cases same : key = other
        · rw [if_pos same] at found
          cases found
        · rw [if_neg same] at found
          have old := disk.closed other stored found
          refine ⟨old.1, old.2.imp_right ?_⟩
          intro parent
          by_cases above : key = other.dropLast
          · rcases (List.eq_nil_or_concat other).resolve_left old.1 with ⟨front, name, rfl⟩
            rw [List.concat_eq_append, List.dropLast_concat] at above
            rw [List.concat_eq_append, ← above] at found
            have child : name ∈ disk.children key := by
              rw [mem_children_iff, Disk.node, if_neg (by simp), found]
              rfl
            rw [removable.2] at child
            cases child
          · rw [SortedMap.lookup_erase, if_neg above, parent] }
  else disk

@[simp] theorem place_cwd (disk : Disk) (key : Key) (node : Node) :
    (disk.place key node).cwd = disk.cwd := by
  unfold place
  split <;> rfl

@[simp] theorem discard_cwd (disk : Disk) (key : Key) : (disk.discard key).cwd = disk.cwd := by
  unfold discard
  split <;> rfl

@[simp] theorem place_key (disk : Disk) (key : Key) (node : Node) (path : Text) :
    (disk.place key node).key path = disk.key path := by
  rw [Disk.key, Disk.key, start, start, place_cwd]

/-- What is stored after a node has been placed. -/
theorem node_place {disk : Disk} {key : Key} (nonempty : key ≠ [])
    (parent : disk.node key.dropLast = some .directory)
    (free : disk.node key ≠ some .directory) (node : Node) (other : Key) :
    (disk.place key node).node other = if key = other then some node else disk.node other := by
  rw [place, dif_pos ⟨nonempty, parent, free⟩]
  unfold Disk.node
  by_cases top : other = []
  · rw [if_pos top, if_pos top, if_neg (fun same => nonempty (same.trans top))]
  · rw [if_neg top, if_neg top, SortedMap.lookup_assign]
    by_cases same : key = other
    · rw [if_pos same, if_pos same]
    · rw [if_neg same, if_neg same]

theorem node_discard {disk : Disk} {key : Key} (nonempty : key ≠ [])
    (childless : disk.children key = []) (other : Key) :
    (disk.discard key).node other = if key = other then none else disk.node other := by
  rw [discard, dif_pos ⟨nonempty, childless⟩]
  unfold Disk.node
  by_cases top : other = []
  · rw [if_pos top, if_pos top, if_neg (fun same => nonempty (same.trans top))]
  · rw [if_neg top, if_neg top, SortedMap.lookup_erase]
    by_cases same : key = other
    · rw [if_pos same, if_pos same]
    · rw [if_neg same, if_neg same]

theorem fileAt_eq_some_iff (disk : Disk) (key : Key) (content : Text) :
    disk.fileAt key = some content ↔ disk.node key = some (.file content) := by
  unfold fileAt
  cases disk.node key with
  | none => simp
  | some node => cases node <;> simp

theorem fileAt_congr {first second : Disk} {key : Key} (same : first.node key = second.node key) :
    first.fileAt key = second.fileAt key := by
  rw [fileAt, fileAt, same]

/-! ## System calls -/

/-- Open for input and read to the end.  A directory can be opened, but reading
it yields nothing. -/
def openInput (disk : Disk) (path : Text) : Option Text :=
  match disk.nodeAt path with
  | none => none
  | some .directory => some []
  | some (.file content) => some content

/-- Open for output: an existing file is truncated, a missing one is created in
its directory. -/
def openOutput (environment : Environment) (path : Text) (disk : Disk) : Bool × Disk :=
  let key := disk.key path
  if path = [] || environment.refusesOpen || mustBeDirectory path || !disk.reaches path ||
      decide (key = []) || decide (disk.node key.dropLast ≠ some .directory) ||
      decide (disk.node key = some .directory) then (false, disk)
  else (true, disk.place key (.file []))

/-- Write to a file just opened for output. -/
def write (environment : Environment) (path data : Text) (disk : Disk) : Disk :=
  disk.place (disk.key path) (.file (environment.stored data))

/-- Go along the names and create each directory that is missing. -/
def makeDirectories : Option Nat -> Key -> List Name -> Disk -> Bool × Disk
  | _, _, [], disk => (true, disk)
  | budget, here, name :: rest, disk =>
      let next := resolveStep true here name
      match disk.node next with
      | some .directory => makeDirectories budget next rest disk
      | some (.file _) => (false, disk)
      | none =>
          if budget = some 0 then (false, disk)
          else makeDirectories (budget.map Nat.pred) next rest (disk.place next .directory)

/-- `fs::create_directories`; `false` where it throws. -/
def createDirectories (environment : Environment) (path : Text) (disk : Disk) : Bool × Disk :=
  if disk.node (disk.start path) = some .directory then
    makeDirectories environment.mkdirBudget (disk.start path) (components path) disk
  else (false, disk)

/-- `fs::exists`. -/
def pathExists (disk : Disk) (path : Text) : Bool :=
  (disk.nodeAt path).isSome

/-- `remove` on a path that ends in a name: a file goes, and so does a directory
that is empty. -/
def remove (environment : Environment) (path : Text) (disk : Disk) : Bool × Disk :=
  if environment.refusesRemove || mustBeDirectory path || (disk.nodeAt path).isNone ||
      !(disk.children (disk.key path)).isEmpty then (false, disk)
  else (true, disk.discard (disk.key path))

/-- `opendir` and `readdir`, which also deliver `.` and `..`. -/
def readDir (environment : Environment) (path : Text) (disk : Disk) : Option (List Name) :=
  if disk.nodeAt path = some .directory then
    some (environment.listingOrder (dot :: dotDot :: disk.children (disk.key path)))
  else none

end Disk
end Storage
end Webserver
