import Webserver.Handlers.CrudRuns
import Webserver.Storage.NamedFiles

namespace Webserver
namespace Handlers

open Http LexicalPaths Programs Storage

/-!
# `PUT` and `POST` under failures

Both requests end in one `writeFile`, whose flag decides the status.  The flag
says that the file could be opened; it says nothing about the bytes, and a
write that fails behind the opening is reported as a success.  A refused write
has no way back either: the directories that were made for it stay.
-/

namespace CrudRequestHandler

variable (handler : CrudRequestHandler)

/-- The path that a `PUT` or `POST` writes: the one in the target or, for a
`POST`, the chosen id behind it. -/
def writePath (junk : Nat -> CInt) (environment : Environment) (req : Request) (disk : Disk) :
    Except Fault Text := do
  let absPath <- handler.mapRequestPathToFilePath req.target
  if req.method = .post then
    let currId <- chooseId junk (FileSystem.listFiles environment absPath disk).2
    .ok (absPath ++ '/' :: currId.toText)
  else
    .ok absPath

/-- A `POST` lists the directory before it writes. -/
def callsBeforeWrite (req : Request) : Nat := if req.method = .post then 1 else 0

/-- The answer is 200 or 201. -/
def Succeeds (outcome : Except Fault Response × Disk) : Prop :=
  Answers outcome .ok ∨ Answers outcome .created

/-- The answer is 500, or an exception escapes. -/
def Fails (outcome : Except Fault Response × Disk) : Prop :=
  Answers outcome .internalServerError ∨ Exists fun fault : Fault => outcome.1 = .error fault

/-- A success means that the target file holds the body, and a failure that
nothing has changed. -/
def AllOrNothing (junk : Nat -> CInt) (environments : Nat -> Environment) (req : Request)
    (disk : Disk) (outcome : Except Fault Response × Disk) : Prop :=
  (Succeeds outcome -> Exists fun path : Text =>
    handler.writePath junk (environments 0) req disk = .ok path ∧
      outcome.2.fileAt (disk.key path) = some req.body) ∧
  (Fails outcome -> SameTree disk outcome.2)

section Serving

variable {handler} {req : Request} {junk : Nat -> CInt} {environments : Nat -> Environment}
  {res : Response} {disk : Disk}

/-- How the flag of a write becomes an answer. -/
theorem run_writeFile_answer (environments : Nat -> Environment) (path data : Text) (disk : Disk)
    {rest : Bool -> Handling Response} {written refused : Response}
    (onSuccess : rest true = pure written) (onFailure : rest false = pure refused)
    (success : written.result = .ok ∨ written.result = .created)
    (failure : refused.result = .internalServerError) :
    (FileSystem.run environments (writeFile path data >>= rest) disk).2 =
        (FileSystem.writeFile (environments 0) path data disk).2 ∧
      (Succeeds (FileSystem.run environments (writeFile path data >>= rest) disk) <->
        (FileSystem.writeFile (environments 0) path data disk).1 = .ok true) ∧
      (Fails (FileSystem.run environments (writeFile path data >>= rest) disk) <->
        (FileSystem.writeFile (environments 0) path data disk).1 ≠ .ok true) := by
  rw [run_writeFile_bind]
  rcases FileSystem.writeFile (environments 0) path data disk with ⟨fault | flag, after⟩
  · simp [Succeeds, Fails, Answers]
  · have ended : forall res : Response, FileSystem.run (fun index => environments (index + 1))
        (pure res) after = (.ok res, after) := fun _ => rfl
    cases flag with
    | true =>
        simp only [onSuccess, ended]
        rcases success with success | success <;> simp [Succeeds, Fails, Answers, success]
    | false =>
        simp only [onFailure, ended]
        simp [Succeeds, Fails, Answers, failure]

/-- A `PUT` or `POST` fails before it has done anything, or it writes its body to
its path and answers by the flag of that write. -/
theorem serve_writes (writes : req.method = .put ∨ req.method = .post) :
    ((Exists fun fault : Fault =>
        handler.writePath junk (environments 0) req disk = .error fault) ∧
      Exists fun fault : Fault =>
        FileSystem.run environments (handler.serve junk req res) disk = (.error fault, disk)) ∨
    (Exists fun path : Text => handler.writePath junk (environments 0) req disk = .ok path ∧
      let written :=
        FileSystem.writeFile (environments (callsBeforeWrite req)) path req.body disk
      (FileSystem.run environments (handler.serve junk req res) disk).2 = written.2 ∧
      (Succeeds (FileSystem.run environments (handler.serve junk req res) disk) <->
        written.1 = .ok true) ∧
      (Fails (FileSystem.run environments (handler.serve junk req res) disk) <->
        written.1 ≠ .ok true)) := by
  cases mapped : handler.mapRequestPathToFilePath req.target with
  | error fault =>
      refine Or.inl ⟨⟨fault, by rw [writePath, mapped]; rfl⟩, ?_⟩
      cases parts : handler.entityParts (cString req.target) with
      | error fault =>
          refine ⟨fault, ?_⟩
          rw [serve, serveReading, parts]
          simp only [run_ofExcept_bind]
      | ok triple =>
          rcases triple with ⟨entityId, entity, id⟩
          refine ⟨fault, ?_⟩
          rcases writes with put | post
          · rw [serve_put put parts, update, mapped]
            simp only [run_ofExcept_bind]
          · rw [serve_post post parts, create, mapped]
            simp only [run_ofExcept_bind]
  | ok absPath =>
      rcases exists_entityParts mapped (cString req.target) with ⟨⟨entityId, entity, id⟩, parts⟩
      rcases writes with put | post
      · have notPost : req.method ≠ .post := by rw [put]; simp
        right
        refine ⟨absPath, by rw [writePath, mapped]; simp [notPost, bind, Except.bind], ?_⟩
        rw [serve_put put parts, update, mapped, callsBeforeWrite, if_neg notPost]
        simp only [run_ofExcept_bind]
        exact run_writeFile_answer environments absPath req.body disk rfl rfl (Or.inl rfl) rfl
      · rw [serve_post post parts, create, mapped, callsBeforeWrite, if_pos post]
        simp only [run_ofExcept_bind, run_listFiles_bind]
        cases chosen : chooseId junk (FileSystem.listFiles (environments 0) absPath disk).2 with
        | error fault =>
            left
            refine ⟨⟨fault, ?_⟩, fault, rfl⟩
            rw [writePath, mapped]
            simp [post, bind, Except.bind, chosen]
        | ok currId =>
            right
            refine ⟨absPath ++ '/' :: currId.toText, ?_, ?_⟩
            · rw [writePath, mapped]
              simp [post, bind, Except.bind, chosen]
            · exact run_writeFile_answer (fun index => environments (index + 1)) _ req.body disk
                rfl rfl (Or.inr rfl) rfl

end Serving

/-! ## When a write is whole -/

/-- Where the file can be opened, the system stores all of the data in the file
that the path names; where it cannot, no directory is made on the way to it.  A
path without a file name is refused at once. -/
def WritesWhole (environment : Environment) (path data : Text) (disk : Disk) : Prop :=
  (FileSystem.splitPath path).2 = [] ∨
    (FileSystem.CanOpen environment path disk ->
      if disk.key (FileSystem.openedPath path) = disk.key path then environment.stored data = data
      else disk.fileAt (disk.key path) = some data) ∧
    (¬ FileSystem.CanOpen environment path disk ->
      ¬ FileSystem.CreatesDirectories environment (FileSystem.splitPath path).1 disk)

theorem writesWhole_iff (environment : Environment) (path data : Text) (disk : Disk) :
    (((FileSystem.writeFile environment path data disk).1 = .ok true ->
        (FileSystem.writeFile environment path data disk).2.fileAt (disk.key path) = some data) ∧
      ((FileSystem.writeFile environment path data disk).1 ≠ .ok true ->
        SameTree disk (FileSystem.writeFile environment path data disk).2)) <->
    WritesWhole environment path data disk := by
  rw [WritesWhole]
  by_cases unnamed : (FileSystem.splitPath path).2 = []
  · rw [FileSystem.writeFile_of_noName unnamed]
    refine ⟨fun _ => Or.inl unnamed, fun _ => ⟨?_, fun _ => SameTree.refl disk⟩⟩
    intro impossible
    cases impossible
  · rw [or_iff_right unnamed, ← FileSystem.opens_iff unnamed]
    by_cases opens : FileSystem.Opens environment path disk
    · rw [(FileSystem.writeFile_of_opens unnamed opens data).1,
        FileSystem.fileAt_writeFile_of_opens unnamed opens]
      simp only [opens, true_implies, ne_eq, not_true_eq_false, false_implies, and_true]
      split
      · rw [Option.some_inj]
      · exact Iff.rfl
    · rcases FileSystem.writeFile_of_not_opens unnamed opens data with ⟨refused, after⟩
      rw [after, FileSystem.sameTree_makeWay_iff]
      exact ⟨fun whole => ⟨fun opened => absurd opened opens, fun _ => whole.2 refused⟩,
        fun kept => ⟨fun written => absurd written refused, fun _ => kept.2 opens⟩⟩

/-- A `PUT` or `POST` is all-or-nothing exactly when the write it ends in is
whole. -/
theorem serve_isAllOrNothing_iff {req : Request} (writes : req.method = .put ∨ req.method = .post)
    (junk : Nat -> CInt) (environments : Nat -> Environment) (res : Response) (disk : Disk) :
    handler.AllOrNothing junk environments req disk
        (FileSystem.run environments (handler.serve junk req res) disk) <->
      forall path, handler.writePath junk (environments 0) req disk = .ok path ->
        WritesWhole (environments (callsBeforeWrite req)) path req.body disk := by
  rw [AllOrNothing]
  rcases @serve_writes handler req junk environments res disk writes with
      ⟨⟨unmapped, unwritten⟩, fault, failed⟩ | ⟨path, mapped, after, succeeds, fails⟩
  · rw [failed, unwritten]
    constructor
    · intro _ path impossible
      cases impossible
    · intro _
      refine ⟨?_, fun _ => SameTree.refl disk⟩
      rintro (⟨_, impossible, _⟩ | ⟨_, impossible, _⟩) <;> cases impossible
  · rw [after, succeeds, fails, mapped]
    have only : forall property : Text -> Prop,
        (forall other, Except.ok path = (Except.ok other : Except Fault Text) -> property other) <->
          property path :=
      fun property => ⟨fun all => all path rfl, fun here other same => Except.ok.inj same ▸ here⟩
    rw [only, ← writesWhole_iff]
    constructor
    · rintro ⟨stored, kept⟩
      refine ⟨?_, kept⟩
      intro written
      rcases stored written with ⟨other, same, holds⟩
      rw [← Except.ok.inj same] at holds
      exact holds
    · rintro ⟨stored, kept⟩
      exact ⟨fun written => ⟨path, rfl, stored written⟩, kept⟩

theorem samplePut_isAllOrNothing :
    sampleHandler.AllOrNothing (fun _ => CInt.zero) (fun _ => Environment.willing)
      ⟨.put, "/api/shoes/1".toList, "a".toList⟩ Disk.empty
      (FileSystem.run (fun _ => Environment.willing)
        (sampleHandler.serve (fun _ => CInt.zero) ⟨.put, "/api/shoes/1".toList, "a".toList⟩ {})
        Disk.empty) := by
  apply (serve_isAllOrNothing_iff sampleHandler (Or.inl rfl) _ _ _ _).mpr
  intro path mapped
  have pathIs : "data/shoes/1".toList = path := Except.ok.inj mapped
  have named : (FileSystem.splitPath path).2 ≠ [] := by
    rw [← pathIs]
    decide
  have opens : FileSystem.CanOpen Environment.willing path Disk.empty := by
    rw [← FileSystem.opens_iff named, ← pathIs]
    decide
  have same : Disk.empty.key (FileSystem.openedPath path) = Disk.empty.key path := by
    rw [← pathIs]
    rfl
  refine Or.inr ⟨fun _ => ?_, fun refused => absurd opens refused⟩
  rw [if_pos same]
  exact Environment.stored_of_complete rfl _

/-- A system that stores no bytes and still opens files. -/
def fullDevice : Environment := { Environment.willing with writeLimit := some 0 }

/-- The `PUT` answers 200, and the file is empty. -/
theorem fullDevice_losesBody :
    ¬ sampleHandler.AllOrNothing (fun _ => CInt.zero) (fun _ => fullDevice)
      ⟨.put, "/api/shoes/1".toList, "a".toList⟩ Disk.empty
      (FileSystem.run (fun _ => fullDevice)
        (sampleHandler.serve (fun _ => CInt.zero) ⟨.put, "/api/shoes/1".toList, "a".toList⟩ {})
        Disk.empty) := by
  rintro ⟨stored, _⟩
  rcases stored (Or.inl ⟨_, rfl, rfl⟩) with ⟨path, mapped, holds⟩
  have pathIs : "data/shoes/1".toList = path := Except.ok.inj mapped
  rw [← pathIs] at holds
  exact absurd holds (by decide)

end CrudRequestHandler
end Handlers
end Webserver
