import Webserver.Storage.Effects
import Mathlib.Data.List.Nodup

namespace Webserver
namespace Storage

open LexicalPaths

/-!
# What a listing shows

`listFiles` joins the names of a directory with commas, in the order in which
the system delivers them, and leaves out those that start with a dot.  Every
other name is there once, whatever the order.
-/

/-- A name that `listFiles` does not leave out. -/
def visible (name : Name) : Bool := name.head? != some '.'

namespace Disk

/-- No name is twice in a directory. -/
theorem nodup_children (disk : Disk) (key : Key) : (disk.children key).Nodup := by
  have keys : (disk.nodes.entries.map Prod.fst).Nodup := by
    rw [List.Nodup, List.pairwise_map]
    exact disk.nodes.sorted.imp (fun before => ne_of_lt before)
  have ofKeys : disk.children key = (disk.nodes.entries.map Prod.fst).filterMap (fun child =>
      if child.dropLast = key then child.getLast? else none) := by
    rw [List.filterMap_map]
    rfl
  rw [ofKeys]
  apply keys.filterMap
  intro first second name inFirst inSecond
  by_cases parent : first.dropLast = key
  · by_cases parent' : second.dropLast = key
    · rw [if_pos parent] at inFirst
      rw [if_pos parent'] at inSecond
      rcases List.getLast?_eq_some_iff.mp inFirst with ⟨front, rfl⟩
      rcases List.getLast?_eq_some_iff.mp inSecond with ⟨front', rfl⟩
      rw [List.dropLast_concat] at parent parent'
      rw [parent, parent']
    · rw [if_neg parent'] at inSecond
      cases inSecond
  · rw [if_neg parent] at inFirst
    cases inFirst

end Disk

namespace FileSystem

variable {environment : Environment} {disk : Disk} {path : Text}

theorem listFiles_of_not_directory (other : disk.nodeAt path ≠ some .directory) :
    listFiles environment path disk = (false, []) := by
  rw [listFiles, Disk.readDir, if_neg other]

/-- The listing of a directory joins its visible names in some order. -/
theorem listFiles_of_directory (directory : disk.nodeAt path = some .directory) :
    Exists fun names : List Name =>
      names.Perm ((disk.children (disk.key path)).filter visible) ∧
        listFiles environment path disk = (true, names.flatMap (fun name => name ++ [','])) := by
  refine ⟨(environment.listingOrder (dot :: dotDot :: disk.children (disk.key path))).filter visible,
    ?_, ?_⟩
  · exact (environment.listingOrder_perm _).filter visible
  · rw [listFiles, Disk.readDir, if_pos directory]
    rfl

end FileSystem
end Storage
end Webserver
