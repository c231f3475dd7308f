import Webserver.Handlers.Crud
import Webserver.Storage.Effects

namespace Webserver
namespace Handlers

open Http LexicalPaths Programs Storage

/-!
# One CRUD request on a disk

`CrudOp` lists the requests for an entity and its members, and `request` spells
each as the target and body that the handler receives.  For each operation one
lemma says what serving it over the class `FileSystem` comes to: which call is
made on which path, and how its outcome becomes the response.  Later modules use
these lemmas and never unfold the handler.
-/

/-- A name that can stand in a target and in a directory. -/
def ValidName (name : Name) : Prop := Plain name ∧ '\x00' ∉ name

instance (name : Name) : Decidable (ValidName name) := inferInstanceAs (Decidable (_ ∧ _))

/-- A request for an entity. -/
inductive CrudOp where
  | post (entity : Name) (body : Text)
  | put (entity id : Name) (body : Text)
  | get (entity id : Name)
  | delete (entity id : Name)
deriving DecidableEq

/-- The names in the target are valid. -/
def CrudOp.ValidNames : CrudOp -> Prop
  | .post entity _ => ValidName entity
  | .put entity id _ => ValidName entity ∧ ValidName id
  | .get entity id => ValidName entity ∧ ValidName id
  | .delete entity id => ValidName entity ∧ ValidName id

instance (op : CrudOp) : Decidable op.ValidNames := by
  cases op <;> exact inferInstanceAs (Decidable (_ ∧ _))

namespace CrudRequestHandler

/-- The target of a name below the location. -/
def target (handler : CrudRequestHandler) (name : Text) : Text :=
  if handler.location.getLast? = some '/' then handler.location ++ name
  else handler.location ++ '/' :: name

/-- The directory that holds an entity. -/
def entityPath (handler : CrudRequestHandler) (entity : Name) : Text :=
  if handler.dataPath.getLast? = some '/' then handler.dataPath ++ entity
  else handler.dataPath ++ '/' :: entity

end CrudRequestHandler

/-- The request as the handler receives it. -/
def CrudOp.request (handler : CrudRequestHandler) : CrudOp -> Request
  | .post entity body => ⟨.post, handler.target entity, body⟩
  | .put entity id body => ⟨.put, handler.target (entity ++ '/' :: id), body⟩
  | .get entity id => ⟨.get, handler.target (entity ++ '/' :: id), []⟩
  | .delete entity id => ⟨.delete_, handler.target (entity ++ '/' :: id), []⟩

namespace CrudRequestHandler

/-- Serve a request over the class `FileSystem`, on the response that the
session has just created. -/
def perform (handler : CrudRequestHandler) (junk : Nat -> CInt)
    (environments : Nat -> Environment) (op : CrudOp) (disk : Disk) :
    Except Fault Response × Disk :=
  FileSystem.run environments (handler.serve junk (op.request handler) {}) disk

variable (handler : CrudRequestHandler) {junk : Nat -> CInt} {environments : Nat -> Environment}

/-! ## Targets and paths -/

theorem prefixSize_target (located : handler.location ≠ []) (name : Text) :
    Exists fun size : Nat => prefixSize handler.location = .ok size ∧
      Strings.substr (handler.target name) size = some name := by
  rcases Option.isSome_iff_exists.mp (List.getLast?_isSome.mpr located) with ⟨last, ends⟩
  rw [prefixSize, target, ends]
  by_cases slash : last = '/'
  · subst slash
    exact ⟨_, rfl, by rw [if_pos rfl, if_pos rfl]; exact Strings.substr_append _ _⟩
  · refine ⟨_, rfl, ?_⟩
    rw [if_neg slash, if_neg (by simpa using slash)]
    have size : (handler.location ++ ['/']).length = handler.location.length + 1 := by simp
    rw [← size, ← List.singleton_append, ← List.append_assoc]
    exact Strings.substr_append _ _

theorem notMem_target {name : Text} (plain : '\x00' ∉ handler.location)
    (named : '\x00' ∉ name) : '\x00' ∉ handler.target name := by
  unfold target
  split <;> simp [plain, named]

theorem joinPath_entity (configured : handler.dataPath ≠ []) (entity : Name) :
    joinPath handler.dataPath entity = .ok (handler.entityPath entity) := by
  rcases Option.isSome_iff_exists.mp (List.getLast?_isSome.mpr configured) with ⟨last, ends⟩
  rw [joinPath, entityPath, ends]
  simp only [Option.some.injEq]

theorem mapRequestPathToFilePath_target (located : handler.location ≠ []) (name : Text) :
    handler.mapRequestPathToFilePath (handler.target name) = joinPath handler.dataPath name := by
  rcases handler.prefixSize_target located name with ⟨size, same, rest⟩
  simp only [mapRequestPathToFilePath, same, bind, Except.bind, rest]

theorem entityPath_ne_nil (entity : Name) (named : entity ≠ []) :
    handler.entityPath entity ≠ [] := by
  unfold entityPath
  split <;> simp [named]

/-- The key of an entity's directory. -/
theorem key_entityPath (configured : handler.dataPath ≠ []) {entity : Name}
    (valid : ValidName entity) (disk : Disk) :
    disk.key (handler.entityPath entity) = disk.key handler.dataPath ++ [entity] := by
  unfold entityPath
  split
  · rename_i ends
    exact Disk.key_append_of_slash disk ends valid.1
  · exact Disk.key_append_name disk configured valid.1

theorem entityParts_entity (located : handler.location ≠ []) (plain : '\x00' ∉ handler.location)
    {entity : Name} (valid : ValidName entity) :
    handler.entityParts (cString (handler.target entity)) = .ok (entity, entity, []) := by
  rw [cString_of_notMem (handler.notMem_target plain valid.2)]
  rcases handler.prefixSize_target located entity with ⟨size, same, rest⟩
  have noSlash := (Strings.find_singleton_eq_none_iff '/' entity).mpr valid.1.2.1
  simp only [entityParts, same, bind, Except.bind, rest, noSlash]

theorem entityParts_member (located : handler.location ≠ []) (plain : '\x00' ∉ handler.location)
    {entity id : Name} (valid : ValidName entity) (validId : ValidName id) :
    handler.entityParts (cString (handler.target (entity ++ '/' :: id))) =
      .ok (entity ++ '/' :: id, entity, id) := by
  rw [cString_of_notMem (handler.notMem_target plain (by simp [valid.2, validId.2]))]
  rcases handler.prefixSize_target located (entity ++ '/' :: id) with ⟨size, same, rest⟩
  have beyond : (entity ++ '/' :: id).drop (entity.length + 1) = id := by
    rw [← List.drop_drop, List.drop_left]
    rfl
  simp only [entityParts, same, bind, Except.bind, rest,
    Strings.find_singleton_append valid.1.2.1, List.take_left, beyond]
  rw [if_neg (by simp)]

/-- The characters in memory behind a target are read as a part of its name. -/
theorem cString_target (plain : '\x00' ∉ handler.location) {name : Text} (named : '\x00' ∉ name)
    (behind : Text) :
    cString (handler.target name ++ behind) = handler.target (name ++ cString behind) := by
  rw [cString_append_of_notMem (handler.notMem_target plain named), target, target]
  split <;> simp

/-- The id is what follows the first slash of a name. -/
theorem entityParts_target (located : handler.location ≠ []) (name : Text) :
    Exists fun entity : Text => handler.entityParts (handler.target name) =
      .ok (name, entity, (name.dropWhile (fun c => c != '/')).tail) := by
  rcases handler.prefixSize_target located name with ⟨size, same, rest⟩
  simp only [entityParts, same, bind, Except.bind, rest]
  by_cases slash : '/' ∈ name
  · rcases List.eq_append_cons_of_mem slash with ⟨before, after, rfl, avoids⟩
    have skipped : (before ++ '/' :: after).dropWhile (fun c => c != '/') = '/' :: after := by
      rw [List.dropWhile_append_of_pos]
      · exact List.dropWhile_cons_of_neg (by simp)
      · intro c member
        have different : c ≠ '/' := fun here => avoids (here ▸ member)
        simpa using different
    have beyond : (before ++ '/' :: after).drop (before.length + 1) = after := by
      rw [← List.drop_drop, List.drop_left]
      rfl
    rw [Strings.find_singleton_append avoids, skipped]
    dsimp only
    rw [if_neg (by simp), beyond]
    exact ⟨_, rfl⟩
  · have nothing : name.dropWhile (fun c => c != '/') = [] := by
      rw [List.dropWhile_eq_nil_iff]
      intro c member
      have different : c ≠ '/' := fun here => slash (here ▸ member)
      simpa using different
    rw [(Strings.find_singleton_eq_none_iff '/' name).mpr slash, nothing]
    exact ⟨_, rfl⟩

/-- Where the target of a request can be mapped to a path, its parts are read, too. -/
theorem exists_entityParts {handler : CrudRequestHandler} {target path : Text}
    (mapped : handler.mapRequestPathToFilePath target = .ok path) (other : Text) :
    Exists fun parts : Text × Text × Text => handler.entityParts other = .ok parts := by
  cases located : prefixSize handler.location with
  | error fault =>
      simp only [mapRequestPathToFilePath, located, bind, Except.bind] at mapped
      cases mapped
  | ok size =>
      simp only [entityParts, located, bind, Except.bind]
      split
      · exact ⟨_, rfl⟩
      · split <;> exact ⟨_, rfl⟩

/-- Without a location no target is taken apart. -/
theorem entityParts_of_nil {handler : CrudRequestHandler} (missing : handler.location = [])
    (target : Text) : handler.entityParts target = .error .undefinedBehavior := by
  simp only [entityParts, prefixSize, missing, List.getLast?_nil, bind, Except.bind]

/-- Without a data path no target is mapped. -/
theorem mapRequestPathToFilePath_of_nil (located : handler.location ≠ [])
    (missing : handler.dataPath = []) (name : Text) :
    handler.mapRequestPathToFilePath (handler.target name) = .error .undefinedBehavior := by
  rw [handler.mapRequestPathToFilePath_target located, joinPath, missing]
  rfl

/-! ## One lemma for each operation -/

section Methods

variable {handler : CrudRequestHandler} {req : Request} {res : Response}
  {parts : Except Fault (Text × Text × Text)} {entityId entity id : Text}

theorem serve_post (post : req.method = .post)
    (parts : handler.entityParts (cString req.target) = .ok (entityId, entity, id)) :
    handler.serve junk req res = handler.create junk entity req res := by
  have method : cString req.method.methodString = "POST".toList := by rw [post]; decide
  rw [serve, serveReading, parts, method]
  simp only [Program.ofExcept_ok, Program.done_bind]
  rw [if_pos trivial]

/-- A `GET` retrieves a member where an id has been read, and lists the entity elsewhere. -/
theorem serveReading_get (get : req.method = .get) {target : Text}
    (parts : handler.entityParts target = .ok (entityId, entity, id)) :
    handler.serveReading junk target req res =
      if id ≠ [] then handler.retrieve entityId req res else handler.list entity req res := by
  have method : cString req.method.methodString = "GET".toList := by rw [get]; decide
  rw [serveReading, parts, method]
  simp only [Program.ofExcept_ok, Program.done_bind]
  rw [if_neg (by decide), if_pos trivial]

theorem serve_get (get : req.method = .get)
    (parts : handler.entityParts (cString req.target) = .ok (entityId, entity, id))
    (named : id ≠ []) : handler.serve junk req res = handler.retrieve entityId req res := by
  rw [serve, serveReading_get get parts, if_pos named]

theorem serve_put (put : req.method = .put)
    (parts : handler.entityParts (cString req.target) = .ok (entityId, entity, id)) :
    handler.serve junk req res = handler.update entityId req res := by
  have method : cString req.method.methodString = "PUT".toList := by rw [put]; decide
  rw [serve, serveReading, parts, method]
  simp only [Program.ofExcept_ok, Program.done_bind]
  rw [if_neg (by decide), if_neg (by decide), if_pos trivial]

theorem serve_delete (delete : req.method = .delete_)
    (parts : handler.entityParts (cString req.target) = .ok (entityId, entity, id)) :
    handler.serve junk req res = handler.crudDelete entityId req res := by
  have method : cString req.method.methodString = "DELETE".toList := by rw [delete]; decide
  rw [serve, serveReading, parts, method]
  simp only [Program.ofExcept_ok, Program.done_bind]
  rw [if_neg (by decide), if_neg (by decide), if_neg (by decide), if_pos trivial]

end Methods

/-- The id that a `POST` chooses on a disk: the part of `create` before the write. -/
def chosenId (junk : Nat -> CInt) (environment : Environment) (entity : Name) (disk : Disk) :
    Except Fault CInt := do
  let absPath <- handler.mapRequestPathToFilePath (handler.target entity)
  chooseId junk (FileSystem.listFiles environment absPath disk).2

theorem chosenId_eq (located : handler.location ≠ []) (configured : handler.dataPath ≠ [])
    (junk : Nat -> CInt) (environment : Environment) (entity : Name) (disk : Disk) :
    handler.chosenId junk environment entity disk =
      chooseId junk (FileSystem.listFiles environment (handler.entityPath entity) disk).2 := by
  rw [chosenId, handler.mapRequestPathToFilePath_target located,
    handler.joinPath_entity configured]
  rfl

/-- The response to a `POST` that has stored its body. -/
def createdResponse (id : CInt) : Response :=
  ({ result := .created
     version := 11
     contentType := some "application/json".toList
     body := getJSONId id } : Response).preparePayload

@[simp] theorem createdResponse_result (id : CInt) : (createdResponse id).result = .created := rfl

/-- How the outcome of a write becomes the outcome of the request. -/
def answerWrite (success : Response) (outcome : Except Fault Bool × Disk) :
    Except Fault Response × Disk :=
  (outcome.1.map (fun written =>
    if written = false then { result := .internalServerError } else success), outcome.2)

section Mounted

variable (located : handler.location ≠ []) (configured : handler.dataPath ≠ [])
  (plain : '\x00' ∉ handler.location) {entity id : Name} (validEntity : ValidName entity)
  (validId : ValidName id) (body : Text) (disk : Disk)

include located configured plain validEntity

theorem perform_post :
    handler.perform junk environments (.post entity body) disk =
      match handler.chosenId junk (environments 0) entity disk with
      | .error fault => (.error fault, disk)
      | .ok currId => answerWrite (createdResponse currId) (FileSystem.writeFile (environments 1)
          (handler.entityPath entity ++ '/' :: currId.toText) body disk) := by
  rw [perform, CrudOp.request,
    serve_post rfl (handler.entityParts_entity located plain validEntity), create,
    handler.mapRequestPathToFilePath_target located, handler.joinPath_entity configured,
    handler.chosenId_eq located configured]
  simp only [run_ofExcept_bind, run_listFiles_bind]
  cases chooseId junk (FileSystem.listFiles (environments 0) (handler.entityPath entity) disk).2 with
  | error fault => rfl
  | ok currId =>
      simp only [run_writeFile_bind]
      rcases FileSystem.writeFile (environments 1)
        (handler.entityPath entity ++ '/' :: currId.toText) body disk with ⟨written | written, after⟩
      · rfl
      · cases written <;> rfl

include validId

theorem perform_put :
    handler.perform junk environments (.put entity id body) disk =
      answerWrite ({ result := .ok, version := 11 } : Response).preparePayload
        (FileSystem.writeFile (environments 0) (handler.entityPath entity ++ '/' :: id)
          body disk) := by
  rw [perform, CrudOp.request,
    serve_put rfl (handler.entityParts_member located plain validEntity validId), update,
    handler.mapRequestPathToFilePath_target located,
    joinPath_append (handler.joinPath_entity configured entity)]
  simp only [run_ofExcept_bind, run_writeFile_bind]
  rcases FileSystem.writeFile (environments 0) (handler.entityPath entity ++ '/' :: id) body disk
    with ⟨written | written, after⟩
  · rfl
  · cases written <;> rfl

theorem perform_get :
    handler.perform junk environments (.get entity id) disk =
      (.ok (if (FileSystem.readFile (handler.entityPath entity ++ '/' :: id) disk).1 = true then
          ({ version := 11
             result := .ok
             contentType := some "application/json".toList
             body := (FileSystem.readFile (handler.entityPath entity ++ '/' :: id) disk).2 } :
            Response).preparePayload
        else ({ version := 11, result := .notFound } : Response).preparePayload), disk) := by
  rw [perform, CrudOp.request,
    serve_get rfl (handler.entityParts_member located plain validEntity validId) validId.1.1, retrieve,
    handler.mapRequestPathToFilePath_target located,
    joinPath_append (handler.joinPath_entity configured entity)]
  simp only [run_ofExcept_bind, run_readFile_bind]
  split <;> rfl

theorem perform_delete :
    handler.perform junk environments (.delete entity id) disk =
      (.ok ({ version := 11, result := .ok } : Response).preparePayload,
        (FileSystem.deleteFile (environments 0)
          (handler.entityPath entity ++ '/' :: id) disk).2) := by
  rw [perform, CrudOp.request,
    serve_delete rfl (handler.entityParts_member located plain validEntity validId), crudDelete,
    handler.mapRequestPathToFilePath_target located,
    joinPath_append (handler.joinPath_entity configured entity)]
  simp only [run_ofExcept_bind, run_deleteFile_bind]
  rfl

end Mounted

/-- Without a location or a data path every request ends with a fault. -/
theorem perform_unmounted (unmounted : handler.location = [] ∨ handler.dataPath = [])
    (plain : '\x00' ∉ handler.location) {op : CrudOp} (valid : op.ValidNames) (disk : Disk) :
    handler.perform junk environments op disk = (.error .undefinedBehavior, disk) := by
  by_cases located : handler.location = []
  · rw [perform, serve, serveReading, entityParts_of_nil located]
    simp only [run_ofExcept_bind]
  · have missing := unmounted.resolve_left located
    have unmapped := handler.mapRequestPathToFilePath_of_nil located missing
    cases op with
    | post entity body =>
        have parts := handler.entityParts_entity located plain valid
        rw [perform, CrudOp.request, serve_post rfl parts, create, unmapped]
        simp only [run_ofExcept_bind]
    | put entity id body =>
        have parts := handler.entityParts_member located plain valid.1 valid.2
        rw [perform, CrudOp.request, serve_put rfl parts, update, unmapped]
        simp only [run_ofExcept_bind]
    | get entity id =>
        have parts := handler.entityParts_member located plain valid.1 valid.2
        rw [perform, CrudOp.request, serve_get rfl parts valid.2.1.1, retrieve, unmapped]
        simp only [run_ofExcept_bind]
    | delete entity id =>
        have parts := handler.entityParts_member located plain valid.1 valid.2
        rw [perform, CrudOp.request, serve_delete rfl parts, crudDelete, unmapped]
        simp only [run_ofExcept_bind]

end CrudRequestHandler
end Handlers
end Webserver
