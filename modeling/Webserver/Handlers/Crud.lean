import Webserver.Storage.FileSystem

namespace Webserver
namespace Handlers

open Http LexicalPaths Programs Storage

/-!
# `CRUDRequestHandler`

The handler is a program over `FileSystemInterface`.  Two things that the C++
code reads are not determined by the request.  `create` compares an `int` that
is never initialised when `stoi` throws; `junk i` is the value it happens to
hold in iteration `i`.  Indexing the empty string, which the code does with an
empty location or data path, is a fault.

`serve` also takes the target from `req.target().data()`, which is no C string: nothing in
the source puts a NUL behind it.  The model does, as `serve` says of `serveReading`; only the
choice between `list` and `retrieve` rests on it.
-/

structure CrudRequestHandler where
  location : Text
  dataPath : Text
deriving DecidableEq

/-- `filesystem_->readFile(path, content)`. -/
def readFile (path : Text) : Handling (Bool × Text) := Program.perform (FsCall.readFile path)

def writeFile (path data : Text) : Handling Bool := Program.perform (FsCall.writeFile path data)

def deleteFile (path : Text) : Handling Bool := Program.perform (FsCall.deleteFile path)

def listFiles (path : Text) : Handling (Bool × Text) := Program.perform (FsCall.listFiles path)

/-- The outcome is a response with the given status. -/
def Answers (outcome : Except Fault Response × Disk) (status : Status) : Prop :=
  Exists fun res : Response => outcome.1 = .ok res ∧ res.result = status

section Running

variable {A B : Type} (environments : Nat -> Environment) (disk : Disk)

@[simp] theorem run_ofExcept_bind (result : Except Fault A) (rest : A -> Handling B) :
    FileSystem.run environments (Program.ofExcept result >>= rest) disk =
      match result with
      | .ok value => FileSystem.run environments (rest value) disk
      | .error fault => (.error fault, disk) := by
  cases result <;> rfl

@[simp] theorem run_readFile_bind (path : Text) (rest : Bool × Text -> Handling A) :
    FileSystem.run environments (readFile path >>= rest) disk =
      FileSystem.run (fun index => environments (index + 1))
        (rest (FileSystem.readFile path disk)) disk := rfl

@[simp] theorem run_listFiles_bind (path : Text) (rest : Bool × Text -> Handling A) :
    FileSystem.run environments (listFiles path >>= rest) disk =
      FileSystem.run (fun index => environments (index + 1))
        (rest (FileSystem.listFiles (environments 0) path disk)) disk := rfl

@[simp] theorem run_deleteFile_bind (path : Text) (rest : Bool -> Handling A) :
    FileSystem.run environments (deleteFile path >>= rest) disk =
      FileSystem.run (fun index => environments (index + 1))
        (rest (FileSystem.deleteFile (environments 0) path disk).1)
        (FileSystem.deleteFile (environments 0) path disk).2 := rfl

@[simp] theorem run_writeFile_bind (path data : Text) (rest : Bool -> Handling A) :
    FileSystem.run environments (writeFile path data >>= rest) disk =
      match FileSystem.writeFile (environments 0) path data disk with
      | (.ok written, after) =>
          FileSystem.run (fun index => environments (index + 1)) (rest written) after
      | (.error fault, after) => (.error fault, after) := by
  change Program.run FileSystem.exec environments (.call (.writeFile path data) rest) disk = _
  simp only [Program.run, FileSystem.exec]
  rcases FileSystem.writeFile (environments 0) path data disk with ⟨written | written, after⟩
  · rfl
  · rfl

end Running

/-- Join a data path and a name, looking at the data path's last character. -/
def joinPath (dataPath name : Text) : Except Fault Text :=
  match dataPath.getLast? with
  | none => .error .undefinedBehavior
  | some last => .ok (if last = '/' then dataPath ++ name else dataPath ++ '/' :: name)

/-- Joining commutes with adding text at the end. -/
theorem joinPath_append {dataPath name path : Text} (joined : joinPath dataPath name = .ok path)
    (more : Text) : joinPath dataPath (name ++ more) = .ok (path ++ more) := by
  unfold joinPath at joined ⊢
  cases final : dataPath.getLast? with
  | none =>
      rw [final] at joined
      cases joined
  | some last =>
      rw [final] at joined
      rw [← Except.ok.inj joined]
      by_cases slash : last = '/' <;> simp [slash]

/-- One iteration of the loop in `create`: an entry on which `stoi` throws
leaves the uninitialised variable as it is. -/
def maxStep (junk : Nat -> CInt) (maxId : CInt) (entry : Text × Nat) : CInt :=
  CInt.larger maxId ((CInt.stoi entry.1).getD (junk entry.2))

/-- `max_id` after the loop over the fields of a comma-joined listing. -/
def maxId (junk : Nat -> CInt) (fileList : Text) : CInt :=
  if fileList = [] then CInt.zero
  else (fileList.splitOn ',').zipIdx.foldl (maxStep junk) CInt.zero

/-- The id that `create` chooses, `max_id + 1`. -/
def chooseId (junk : Nat -> CInt) (fileList : Text) : Except Fault CInt :=
  match (maxId junk fileList).increment with
  | none => .error .undefinedBehavior
  | some id => .ok id

theorem foldl_maxStep_ge (junk : Nat -> CInt) (entries : List (Text × Nat)) (start : CInt) :
    start.value ≤ (entries.foldl (maxStep junk) start).value := by
  induction entries generalizing start with
  | nil => exact Int.le_refl _
  | cons entry rest inductionHypothesis =>
      refine Int.le_trans ?_ (inductionHypothesis _)
      rw [maxStep, CInt.larger_value]
      omega

theorem maxId_nonneg (junk : Nat -> CInt) (fileList : Text) : 0 ≤ (maxId junk fileList).value := by
  unfold maxId
  split
  · decide
  · exact foldl_maxStep_ge junk _ CInt.zero

theorem chooseId_eq_ok_iff (junk : Nat -> CInt) (fileList : Text) (id : CInt) :
    chooseId junk fileList = .ok id ↔ id.value = (maxId junk fileList).value + 1 := by
  rw [← CInt.increment_eq_some_iff, chooseId]
  cases (maxId junk fileList).increment <;> simp

/-- A chosen id is printed without a sign. -/
theorem toText_of_chosen {junk : Nat -> CInt} {fileList : Text} {id : CInt}
    (chosen : chooseId junk fileList = .ok id) :
    id.toText = Nat.toDigits 10 id.value.natAbs := by
  have nonneg := maxId_nonneg junk fileList
  have next := (chooseId_eq_ok_iff junk fileList id).mp chosen
  exact CInt.toText_of_nonneg (by omega)

/-- A decimal number behind a part of a name makes a name. -/
theorem plain_append_digits {front : Text} (noSlash : '/' ∉ front) (n : Nat) :
    Plain (front ++ Nat.toDigits 10 n) := by
  have noDot : '.' ∉ Nat.toDigits 10 n := CInt.notMem_toDigits (Or.inr (Or.inr rfl)) n
  have notDots : forall dots : Name, dots.getLast? = some '.' -> front ++ Nat.toDigits 10 n ≠ dots := by
    intro dots ends same
    rw [← same, List.getLast?_append_of_ne_nil _ Nat.toDigits_ne_nil] at ends
    exact noDot (List.mem_of_getLast? ends)
  have noSlash' : '/' ∉ Nat.toDigits 10 n := CInt.notMem_toDigits (Or.inl rfl) n
  exact ⟨by simp, by simp [noSlash, noSlash'], notDots dot rfl, notDots dotDot rfl⟩

namespace CrudRequestHandler

/-- `get_JSON_id`. -/
def getJSONId (id : CInt) : Text :=
  "\x7b \"id\": ".toList ++ id.toText ++ " \x7d\n".toList

/-- How much of the target the location takes, with the separator after it. -/
def prefixSize (location : Text) : Except Fault Nat :=
  match location.getLast? with
  | none => .error .undefinedBehavior
  | some last => .ok (if last = '/' then location.length else location.length + 1)

def mapRequestPathToFilePath (handler : CrudRequestHandler) (requestUri : Text) :
    Except Fault Text := do
  let size <- prefixSize handler.location
  match Strings.substr requestUri size with
  | none => .error .outOfRange
  | some temp0 => joinPath handler.dataPath temp0

/-- The processing of the request target in `serve`: `entity_id`, `entity` and
`id`.  The surrounding `catch (...)` turns a failing `substr` into empty parts. -/
def entityParts (handler : CrudRequestHandler) (target : Text) :
    Except Fault (Text × Text × Text) := do
  let size <- prefixSize handler.location
  match Strings.substr target size with
  | none => .ok ([], [], [])
  | some entityId =>
      match Strings.find ['/'] entityId with
      | none => .ok (entityId, entityId, [])
      | some pos => .ok (entityId, entityId.take pos,
          if pos ≥ entityId.length then [] else entityId.drop (pos + 1))

def create (handler : CrudRequestHandler) (junk : Nat -> CInt) (_entity : Text)
    (req : Request) (res : Response) : Handling Response := do
  let absPath <- Program.ofExcept (handler.mapRequestPathToFilePath req.target)
  let listing <- listFiles absPath
  let currId <- Program.ofExcept (chooseId junk listing.2)
  let written <- writeFile (absPath ++ '/' :: currId.toText) req.body
  if written = false then
    pure { res with result := .internalServerError }
  else
    pure ({ res with
      result := .created
      version := 11
      contentType := some "application/json".toList
      body := getJSONId currId } : Response).preparePayload

def retrieve (handler : CrudRequestHandler) (_entityId : Text) (req : Request)
    (res : Response) : Handling Response := do
  let filePath <- Program.ofExcept (handler.mapRequestPathToFilePath req.target)
  let content <- readFile filePath
  if content.1 = true then
    pure ({ res with
      version := 11
      result := .ok
      contentType := some "application/json".toList
      body := content.2 } : Response).preparePayload
  else
    pure ({ res with version := 11, result := .notFound } : Response).preparePayload

def update (handler : CrudRequestHandler) (_entityId : Text) (req : Request)
    (res : Response) : Handling Response := do
  let absPath <- Program.ofExcept (handler.mapRequestPathToFilePath req.target)
  let written <- writeFile absPath req.body
  if written = false then
    pure { res with result := .internalServerError }
  else
    pure ({ res with result := .ok, version := 11 } : Response).preparePayload

def crudDelete (handler : CrudRequestHandler) (_entityId : Text) (req : Request)
    (res : Response) : Handling Response := do
  let filePath <- Program.ofExcept (handler.mapRequestPathToFilePath req.target)
  -- The returned flag is not looked at: the answer is 200 either way.
  let _deleted <- deleteFile filePath
  pure ({ res with version := 11, result := .ok } : Response).preparePayload

def list (handler : CrudRequestHandler) (_entity : Text) (req : Request) (res : Response) :
    Handling Response := do
  let filePath <- Program.ofExcept (handler.mapRequestPathToFilePath req.target)
  let listing <- listFiles filePath
  let fileListJson :=
    if listing.1 = true then
      -- `size() - 1` wraps around on an empty listing, and `substr` then takes all of it.
      "[".toList ++ listing.2.take (listing.2.length - 1) ++ "]".toList
    else "[]".toList
  pure ({ res with
    body := fileListJson
    contentType := some "application/json".toList
    result := .ok } : Response).preparePayload

/-- `serve` where `target` is what `req.target().data()` reads as a C string. -/
def serveReading (handler : CrudRequestHandler) (junk : Nat -> CInt) (target : Text) (req : Request)
    (res : Response) : Handling Response := do
  let method := cString req.method.methodString
  let (entityId, entity, id) <- Program.ofExcept (handler.entityParts target)
  if method = "POST".toList then
    handler.create junk entity req res
  else if method = "GET".toList then
    if id ≠ [] then handler.retrieve entityId req res
    else handler.list entity req res
  else if method = "PUT".toList then
    handler.update entityId req res
  else if method = "DELETE".toList then
    handler.crudDelete entityId req res
  else
    pure { res with result := .notImplemented }

/-- `serve` with a NUL behind the target. -/
def serve (handler : CrudRequestHandler) (junk : Nat -> CInt) (req : Request)
    (res : Response) : Handling Response :=
  handler.serveReading junk (cString req.target) req res

/-- The operations take their paths from the target itself, so that what stands behind it
matters to a GET request only: it may be read as an id. -/
theorem serveReading_eq_serve (handler : CrudRequestHandler) (junk : Nat -> CInt) (target : Text)
    {req : Request} (notGet : cString req.method.methodString ≠ "GET".toList) (res : Response) :
    handler.serveReading junk target req res = handler.serve junk req res := by
  cases located : prefixSize handler.location with
  | error fault => simp only [serve, serveReading, entityParts, located, bind, Except.bind]
  | ok size =>
      have parts : forall text : Text, Exists fun parts : Text × Text × Text =>
          handler.entityParts text = .ok parts := by
        intro text
        simp only [entityParts, located, bind, Except.bind]
        split
        · exact ⟨_, rfl⟩
        · split <;> exact ⟨_, rfl⟩
      rcases parts target with ⟨read, isRead⟩
      rcases parts (cString req.target) with ⟨readToo, isReadToo⟩
      rw [serve, serveReading, serveReading, isRead, isReadToo]
      simp only [Program.ofExcept_ok, Program.done_bind, if_neg notGet]
      rfl

end CrudRequestHandler
end Handlers
end Webserver
