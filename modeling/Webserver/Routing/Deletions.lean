import Webserver.Handlers.CrudRuns
import Webserver.Handlers.MarkdownPosts
import Webserver.Routing.Dispatcher

namespace Webserver
namespace Routing

open Handlers Http LexicalPaths Programs Storage

/-!
# What a delete request reports

`deleteFile` finds out whether there is a file by opening it for output, which
creates a missing file and empties an existing one.  It then removes the file
and reports whether that worked.  Neither handler passes the report on: the
CRUD handler does not look at it, and the Markdown handler lets the list page
replace the status.
-/

/-- The path leads to a regular file. -/
def FileAtPath (disk : Disk) (path : Text) : Prop :=
  disk.nodeAt path ≠ none ∧ disk.nodeAt path ≠ some .directory

instance (disk : Disk) (path : Text) : Decidable (FileAtPath disk path) :=
  inferInstanceAs (Decidable (_ ∧ _))

theorem fileAtPath_iff (disk : Disk) (path : Text) :
    FileAtPath disk path <-> Exists fun content : Text => disk.nodeAt path = some (.file content) := by
  rw [FileAtPath]
  cases disk.nodeAt path with
  | none => simp
  | some node => cases node <;> simp

section DeletingFiles

variable {environment : Environment} {path : Text} {disk : Disk}

/-- Deleting a file removes it unless the system refuses to open or to remove it. -/
theorem deleteFile_of_fileAtPath (present : FileAtPath disk path) :
    (environment.refusesOpen = false -> environment.refusesRemove = false ->
      (FileSystem.deleteFile environment path disk).2.fileAt (disk.key path) = none) ∧
    (environment.refusesOpen = true ∨ environment.refusesRemove = true ->
      FileAtPath (FileSystem.deleteFile environment path disk).2 path) := by
  have found := present
  rw [fileAtPath_iff] at found
  rcases found with ⟨content, found⟩
  rcases (Disk.nodeAt_eq_file_iff _ _ _).mp found with ⟨nonempty, reached, isName, stored⟩
  have nodeIs := (Disk.fileAt_eq_some_iff _ _ _).mp stored
  have below : disk.key path ≠ [] := by
    intro top
    rw [top, Disk.node, if_pos rfl] at nodeIs
    cases nodeIs
  have parent := disk.closed_node below nodeIs
  have free : disk.node (disk.key path) ≠ some .directory := by
    rw [nodeIs]
    simp
  have opened : environment.refusesOpen = false ->
      disk.openOutput environment path = (true, disk.place (disk.key path) (.file [])) := by
    intro accepted
    rw [Disk.openOutput]
    simp [nonempty, accepted, isName, reached, below, parent, nodeIs]
  -- The truncated file is found where the file was, and nothing is below it.
  have truncated : (disk.place (disk.key path) (.file [])).nodeAt path = some (.file []) := by
    rw [Disk.nodeAt_eq_file_iff, Disk.place_key, Disk.fileAt_eq_some_iff,
      Disk.node_place below parent free, if_pos rfl]
    exact ⟨nonempty, Disk.reaches_mono (Disk.place_cwd _ _ _)
      (fun key there => Disk.directory_place there _ _) reached, isName, rfl⟩
  have childless : (disk.place (disk.key path) (.file [])).children (disk.key path) = [] := by
    rw [List.eq_nil_iff_forall_not_mem]
    intro name child
    have directory := Disk.directory_of_child child
    rw [Disk.node_place below parent free, if_pos rfl] at directory
    cases directory
  constructor
  · intro accepted removable
    rw [FileSystem.deleteFile, opened accepted]
    simp only [nonempty, Bool.true_eq_false, or_self, if_false]
    rw [Disk.remove, Disk.place_key, removable, isName, truncated, childless]
    simp only [Option.isNone_some, List.isEmpty_nil, Bool.not_true, Bool.or_self, Bool.false_eq_true,
      if_false]
    rw [Disk.fileAt, Disk.node_discard below childless, if_pos rfl]
  · intro refused
    cases accepted : environment.refusesOpen with
    | true =>
        have unopened : disk.openOutput environment path = (false, disk) := by
          rw [Disk.openOutput]
          simp [accepted]
        rw [FileSystem.deleteFile, unopened]
        simp only [true_or, if_true]
        exact present
    | false =>
        have kept := refused.resolve_left (by rw [accepted]; simp)
        rw [FileSystem.deleteFile, opened accepted]
        simp only [nonempty, Bool.true_eq_false, or_self, if_false]
        rw [Disk.remove, kept]
        simp only [Bool.true_or, if_true]
        exact (fileAtPath_iff _ _).mpr ⟨[], truncated⟩

end DeletingFiles

/-! ## Delete requests -/

/-- The request asks the handler to delete the file at the path. -/
def Deletes : RequestHandler -> Request -> Text -> Prop
  | .crud handler, req, path =>
      req.method = .delete_ ∧ handler.mapRequestPathToFilePath req.target = .ok path
  | .markdown handler, req, path =>
      req.method = .post ∧ MarkdownRequestHandler.action req.target = .ok "delete".toList ∧
        handler.constructFilePath (MarkdownRequestHandler.extractFileName req.body) = .ok path
  | _, _, _ => False

/-- 200 exactly for a file that was there and is gone; otherwise 404 and no file
has changed. -/
def ReportsTruthfully (path : Text) (disk : Disk) (outcome : Except Fault Response × Disk) : Prop :=
  (Answers outcome .ok <-> FileAtPath disk path ∧ ¬ FileAtPath outcome.2 path) ∧
  (¬ (FileAtPath disk path ∧ ¬ FileAtPath outcome.2 path) ->
    Answers outcome .notFound ∧ SameFiles disk outcome.2)

theorem serve_delete_answers {handler : CrudRequestHandler} {req : Request} {path : Text}
    (delete : req.method = .delete_)
    (mapped : handler.mapRequestPathToFilePath req.target = .ok path) (junk : Nat -> CInt)
    (environments : Nat -> Environment) (res : Response) (disk : Disk) :
    (FileSystem.run environments (handler.serve junk req res) disk).2 =
        (FileSystem.deleteFile (environments 0) path disk).2 ∧
      Answers (FileSystem.run environments (handler.serve junk req res) disk) .ok := by
  rcases CrudRequestHandler.exists_entityParts mapped (cString req.target) with
    ⟨⟨entityId, entity, id⟩, parts⟩
  rw [CrudRequestHandler.serve_delete delete parts, CrudRequestHandler.crudDelete, mapped]
  simp only [run_ofExcept_bind, run_deleteFile_bind]
  exact ⟨rfl, _, rfl, rfl⟩

theorem run_list {handler : MarkdownRequestHandler} (configured : handler.dataPath ≠ [])
    (req : Request) (environments : Nat -> Environment) (res : Response) (disk : Disk) :
    (FileSystem.run environments (handler.list req res) disk).2 = disk ∧
      Answers (FileSystem.run environments (handler.list req res) disk) .ok := by
  rw [MarkdownRequestHandler.list, MarkdownRequestHandler.mapRequestPathToFilePath,
    MarkdownRequestHandler.constructFilePath_eq handler configured]
  simp only [run_ofExcept_bind, run_listFiles_bind]
  exact ⟨rfl, _, rfl, rfl⟩

theorem serve_mdDelete_answers {handler : MarkdownRequestHandler} {req : Request} {path : Text}
    (post : req.method = .post)
    (action : MarkdownRequestHandler.action req.target = .ok "delete".toList)
    (named : handler.constructFilePath (MarkdownRequestHandler.extractFileName req.body) = .ok path)
    (convert : Text -> Except Fault Text) (junk : Nat -> CInt) (environments : Nat -> Environment)
    (res : Response) (disk : Disk) :
    (FileSystem.run environments (handler.serve convert junk req res) disk).2 =
        (FileSystem.deleteFile (environments 0) path disk).2 ∧
      Answers (FileSystem.run environments (handler.serve convert junk req res) disk) .ok := by
  have configured : handler.dataPath ≠ [] := by
    intro missing
    rw [MarkdownRequestHandler.constructFilePath_of_nil handler missing] at named
    cases named
  have method : req.method.methodString = "POST".toList := by rw [post]; rfl
  rw [MarkdownRequestHandler.serve, action, method]
  simp only [run_ofExcept_bind]
  rw [if_neg (by decide), if_pos trivial, if_neg (by decide), if_neg (by decide), if_pos trivial,
    MarkdownRequestHandler.mdDelete, named]
  simp only [run_ofExcept_bind, run_deleteFile_bind]
  exact run_list configured _ _ _ _

/-- A delete request has the effect of `deleteFile` on its path, and is answered
with 200. -/
theorem delete_answers {handler : RequestHandler} {req : Request} {path : Text}
    (deletes : Deletes handler req path) (convert : Text -> Except Fault Text) (junk : Nat -> CInt)
    (environments : Nat -> Environment) (res : Response) (disk : Disk) :
    (FileSystem.run environments (handler.handleRequest convert junk req res) disk).2 =
        (FileSystem.deleteFile (environments 0) path disk).2 ∧
      Answers (FileSystem.run environments (handler.handleRequest convert junk req res) disk) .ok := by
  cases handler with
  | crud handler => exact serve_delete_answers deletes.1 deletes.2 junk environments res disk
  | markdown handler =>
      exact serve_mdDelete_answers deletes.1 deletes.2.1 deletes.2.2 convert junk environments res disk
  | _ => exact deletes.elim

/-- A delete request is answered truthfully exactly when it deletes a file: there
is one at the path, and the system neither refuses to open it nor to remove it. -/
theorem delete_isTruthful_iff {handler : RequestHandler} {req : Request} {path : Text}
    (deletes : Deletes handler req path) (convert : Text -> Except Fault Text) (junk : Nat -> CInt)
    (environments : Nat -> Environment) (res : Response) (disk : Disk) :
    ReportsTruthfully path disk
        (FileSystem.run environments (handler.handleRequest convert junk req res) disk) <->
      FileAtPath disk path ∧ (environments 0).refusesOpen = false ∧
        (environments 0).refusesRemove = false := by
  rcases delete_answers deletes convert junk environments res disk with ⟨after, answered⟩
  rw [ReportsTruthfully, after]
  constructor
  · rintro ⟨truthful, _⟩
    rcases truthful.mp answered with ⟨present, gone⟩
    have stays := (@deleteFile_of_fileAtPath (environments 0) path disk present).2
    refine ⟨present, ?_, ?_⟩
    · apply Bool.eq_false_iff.mpr
      exact fun refused => gone (stays (Or.inl refused))
    · apply Bool.eq_false_iff.mpr
      exact fun refused => gone (stays (Or.inr refused))
  · rintro ⟨present, accepted, removable⟩
    have removed := (deleteFile_of_fileAtPath present).1 accepted removable
    have changed := FileSystem.deleteFile_effect (environments 0) path disk
    have gone : ¬ FileAtPath (FileSystem.deleteFile (environments 0) path disk).2 path := by
      rw [fileAtPath_iff]
      rintro ⟨content, still⟩
      have stored := ((Disk.nodeAt_eq_file_iff _ _ _).mp still).2.2.2
      rw [Disk.key_congr changed.cwd, removed] at stored
      cases stored
    exact ⟨⟨fun _ => ⟨present, gone⟩, fun _ => answered⟩,
      fun untruthful => absurd ⟨present, gone⟩ untruthful⟩

/-- A member that was just written is deleted. -/
theorem sampleDelete_isTruthful :
    let disk := (CrudRequestHandler.sampleHandler.serveTurns
      [CrudRequestHandler.putTurn "a".toList] (Ledger.empty, Disk.empty)).2
    ReportsTruthfully "data/shoes/1".toList disk
      (FileSystem.run (fun _ => Environment.willing)
        ((RequestHandler.crud CrudRequestHandler.sampleHandler).handleRequest .ok
          (fun _ => CInt.zero) ⟨.delete_, "/api/shoes/1".toList, []⟩ {}) disk) := by
  intro disk
  have deletes : Deletes (.crud CrudRequestHandler.sampleHandler)
      ⟨.delete_, "/api/shoes/1".toList, []⟩ "data/shoes/1".toList := ⟨rfl, rfl⟩
  apply (delete_isTruthful_iff deletes _ _ _ _ _).mpr
  exact ⟨by decide, rfl, rfl⟩

/-- A member that was never written is reported as deleted, too. -/
theorem missingDelete_answersOk :
    Deletes (.crud CrudRequestHandler.sampleHandler) ⟨.delete_, "/api/shoes/1".toList, []⟩
        "data/shoes/1".toList ∧
      ¬ FileAtPath Disk.empty "data/shoes/1".toList ∧
      ¬ ReportsTruthfully "data/shoes/1".toList Disk.empty
        (FileSystem.run (fun _ => Environment.willing)
          ((RequestHandler.crud CrudRequestHandler.sampleHandler).handleRequest .ok
            (fun _ => CInt.zero) ⟨.delete_, "/api/shoes/1".toList, []⟩ {}) Disk.empty) := by
  have absent : ¬ FileAtPath Disk.empty "data/shoes/1".toList := by decide
  refine ⟨⟨rfl, rfl⟩, absent, ?_⟩
  intro truthful
  exact absent (truthful.1.mp ⟨_, rfl, rfl⟩).1

end Routing
end Webserver
