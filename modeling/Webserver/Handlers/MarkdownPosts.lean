import Webserver.Handlers.MarkdownPages
import Webserver.Storage.Writes

namespace Webserver
namespace Handlers

open Http LexicalPaths Programs Storage

/-!
# Posts as files

A post is a regular file that lies directly in the data directory, and its id is
its name.  Every path that the handler builds is the data path, a separator and a
name out of the request, so the lemmas on names behind a directory path apply to
all of them.
-/

namespace MarkdownRequestHandler

variable (handler : MarkdownRequestHandler)

/-- The data path without the separator at its end. -/
def dataRoot : Text :=
  if handler.dataPath.getLast? = some '/' then handler.dataPath.dropLast else handler.dataPath

/-- The path that the handler builds for a name. -/
def postPath (name : Text) : Text := handler.dataRoot ++ '/' :: name

/-- The key of a post. -/
def postKey (disk : Disk) (id : Name) : Key := disk.key handler.dataPath ++ [id]

theorem constructFilePath_eq (configured : handler.dataPath ≠ []) (name : Text) :
    handler.constructFilePath name = .ok (handler.postPath name) := by
  rcases Option.isSome_iff_exists.mp (List.getLast?_isSome.mpr configured) with ⟨last, ends⟩
  rw [constructFilePath, joinPath, postPath, dataRoot, ends]
  by_cases slash : last = '/'
  · subst slash
    rcases List.getLast?_eq_some_iff.mp ends with ⟨front, whole⟩
    rw [whole]
    simp
  · simp [slash]

theorem constructFilePath_of_nil (missing : handler.dataPath = []) (name : Text) :
    handler.constructFilePath name = .error .undefinedBehavior := by
  rw [constructFilePath, joinPath, missing]
  rfl

theorem key_dataRoot (configured : handler.dataPath ≠ []) (disk : Disk) :
    disk.key (handler.dataRoot ++ ['/']) = disk.key handler.dataPath := by
  rw [dataRoot]
  by_cases ends : handler.dataPath.getLast? = some '/'
  · rcases List.getLast?_eq_some_iff.mp ends with ⟨front, whole⟩
    rw [if_pos ends, whole, List.dropLast_concat]
  · rw [if_neg ends, Disk.key_concat_slash _ configured]

/-- The key of a path of the handler: the text is resolved from the data directory on. -/
theorem key_postPath (configured : handler.dataPath ≠ []) (text : Text) (disk : Disk) :
    disk.key (handler.postPath text) =
      resolveFrom true (disk.key handler.dataPath) (components text) := by
  have start : disk.start (handler.dataRoot ++ '/' :: text) =
      disk.start (handler.dataRoot ++ ['/']) := by
    have nonempty : handler.dataRoot ++ ['/'] ≠ [] := by simp
    rw [← disk.start_append nonempty text, List.append_assoc, List.singleton_append]
  rw [← handler.key_dataRoot configured, Disk.key, Disk.key, postPath, start,
    components_append_slash, components_concat_slash, resolveFrom_append]

theorem postKey_congr {first second : Disk} (same : second.cwd = first.cwd) (id : Name) :
    handler.postKey second id = handler.postKey first id := by
  rw [postKey, postKey, Disk.key_congr same]

/-- The data directory is found with a separator behind its path, as the handler puts one. -/
theorem nodeAt_dataRoot (configured : handler.dataPath ≠ []) (disk : Disk) :
    disk.nodeAt (handler.dataRoot ++ ['/']) = some .directory <->
      disk.nodeAt handler.dataPath = some .directory := by
  rw [dataRoot]
  by_cases ends : handler.dataPath.getLast? = some '/'
  · rcases List.getLast?_eq_some_iff.mp ends with ⟨front, whole⟩
    rw [if_pos ends, whole, List.dropLast_concat]
  · rw [if_neg ends, disk.nodeAt_concat_slash configured]

/-- What is found under an id is what the data directory holds. -/
theorem nodeAt_post (configured : handler.dataPath ≠ []) {id : Name} (plain : Plain id)
    (disk : Disk) (node : Node) :
    disk.nodeAt (handler.postPath id) = some node <->
      disk.nodeAt handler.dataPath = some .directory ∧
        disk.node (handler.postKey disk id) = some node := by
  rw [postPath, disk.nodeAt_name _ plain, key_dataRoot handler configured, ← postKey]
  by_cases directory : disk.nodeAt handler.dataPath = some .directory
  · simp [(nodeAt_dataRoot handler configured disk).mpr directory, directory]
  · simp [mt (nodeAt_dataRoot handler configured disk).mp directory, directory]

/-- The answer to an edit request is the edit page of the post, if it can be read. -/
theorem run_edit (configured : handler.dataPath ≠ []) (req : Request) (res : Response)
    (environments : Nat -> Environment) (disk : Disk) :
    Exists fun answer : Response =>
      FileSystem.run environments (handler.edit req res) disk = (.ok answer, disk) ∧
        let content := FileSystem.readFile (handler.postPath (extractFileName req.body)) disk
        (content.1 = true -> answer.result = .ok ∧
          editPage (extractFileName req.body) content.2 = .ok answer.body) ∧
        (content.1 = false -> answer.result = .notFound) := by
  rw [edit, constructFilePath_eq handler configured]
  simp only [run_ofExcept_bind, run_readFile_bind]
  rcases FileSystem.readFile (handler.postPath (extractFileName req.body)) disk with ⟨found, content⟩
  cases found with
  | true =>
      rcases editPage_isOk (extractFileName req.body) content with ⟨body, page⟩
      have filled := page
      rw [editPage] at filled
      simp only [if_true, filled, run_ofExcept_bind]
      exact ⟨_, rfl, fun _ => ⟨rfl, page⟩, fun impossible => by cases impossible⟩
  | false => exact ⟨_, rfl, fun impossible => (by cases impossible), fun _ => rfl⟩

end MarkdownRequestHandler
end Handlers
end Webserver
