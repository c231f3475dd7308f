import Webserver.Handlers.CrudFreshness
import Webserver.Handlers.Indexing
import Webserver.Http.Session

namespace Webserver
namespace Handlers

open Http Programs Storage

/-!
# Whether the CRUD handler answers

The target is cut behind the location twice.  In `serve` a `catch (...)` stands around
it; in `map_request_path_to_file_path`, with which each of the four operations begins,
there is none.  A target that is the location itself is too short for the cut behind
the separator, and the exception leaves the handler.  The session then writes no
response.
-/

/-- There is a response, and a session that gets it writes it. -/
def IsWritten (outcome : Except Fault Response) (req : Request) : Prop :=
  Exists fun res : Response => outcome = .ok res ∧
    forall (respond : Request -> Except Fault Response) (session : Session),
      createRequest session.data = .ok (some req) -> respond req = outcome ->
      (session.handleRead respond false).written = session.written ++ [res]

/-- A session writes whatever response it gets. -/
theorem isWritten_iff (outcome : Except Fault Response) (req : Request) :
    IsWritten outcome req <-> Exists fun res : Response => outcome = .ok res := by
  constructor
  · rintro ⟨res, isOk, _⟩
    exact ⟨res, isOk⟩
  · rintro ⟨res, isOk⟩
    refine ⟨res, isOk, fun respond session created responds => ?_⟩
    rw [Session.handleRead, if_neg (by decide), created]
    simp only [responds, isOk]

namespace CrudRequestHandler

section Answering

variable {handler : CrudRequestHandler} {junk : Nat -> CInt} {req : Request} {res : Response}
  {State : Type} (answer : (op : FsCall) -> State -> FsCall.Reply op × State) (state : State)

theorem retrieve_isOk {path : Text} (mapped : handler.mapRequestPathToFilePath req.target = .ok path)
    (entityId : Text) : Exists fun answered : Response =>
      (handler.retrieve entityId req res).outcome answer state = .ok answered := by
  rw [retrieve, mapped]
  simp only [readFile, Program.ofExcept_ok, Program.done_bind, Program.outcome_perform_bind]
  split <;> exact ⟨_, rfl⟩

theorem update_isOk {path : Text} (mapped : handler.mapRequestPathToFilePath req.target = .ok path)
    (entityId : Text) : Exists fun answered : Response =>
      (handler.update entityId req res).outcome answer state = .ok answered := by
  rw [update, mapped]
  simp only [writeFile, Program.ofExcept_ok, Program.done_bind, Program.outcome_perform_bind]
  split <;> exact ⟨_, rfl⟩

/-- `create` answers exactly when no value that it compares is `INT_MAX`. -/
theorem create_isOk_iff {path : Text} (mapped : handler.mapRequestPathToFilePath req.target = .ok path)
    (entity : Text) :
    (Exists fun answered : Response =>
      (handler.create junk entity req res).outcome answer state = .ok answered) <->
      BelowMax junk (answer (.listFiles path) state).1.2 := by
  rw [← chooseId_isOk_iff, create, mapped]
  simp only [listFiles, Program.ofExcept_ok, Program.done_bind, Program.outcome_perform_bind]
  cases chooseId junk (answer (.listFiles path) state).1.2 with
  | error fault =>
      refine iff_of_false ?_ ?_
      · rintro ⟨answered, impossible⟩
        cases impossible
      · rintro ⟨id, impossible⟩
        cases impossible
  | ok id =>
      refine iff_of_true ?_ ⟨id, rfl⟩
      simp only [writeFile, Program.ofExcept_ok, Program.done_bind, Program.outcome_perform_bind]
      split <;> exact ⟨_, rfl⟩

/-- Where the path is found, serving ends with a response unless a `POST` adds one to
`INT_MAX`. -/
theorem serve_isOk_iff {path : Text} (nonempty : handler.location ≠ [])
    (mapped : handler.mapRequestPathToFilePath req.target = .ok path) :
    (Exists fun answered : Response =>
      (handler.serve junk req res).outcome answer state = .ok answered) <->
      (cString req.method.methodString = "POST".toList ->
        BelowMax junk (answer (.listFiles path) state).1.2) := by
  rcases entityParts_isOk nonempty (cString req.target) with ⟨⟨entityId, entity, id⟩, parts⟩
  rw [serve, serveReading, parts]
  simp only [Program.ofExcept_ok, Program.done_bind]
  by_cases post : cString req.method.methodString = "POST".toList
  · rw [if_pos post, create_isOk_iff answer state mapped]
    exact ⟨fun below _ => below, fun below => below post⟩
  · refine iff_of_true ?_ (fun impossible => absurd impossible post)
    rw [if_neg post]
    split
    · split
      · exact retrieve_isOk answer state mapped entityId
      · rw [list, mapped]
        exact ⟨_, rfl⟩
    · split
      · exact update_isOk answer state mapped entityId
      · split
        · rw [crudDelete, mapped]
          exact ⟨_, rfl⟩
        · exact ⟨_, rfl⟩

/-- A target that begins with the location is too short only if it is the location. -/
theorem reachesDataPath_iff {location target : Text}
    (ends : location = "/".toList ∨ location.getLast? ≠ some '/') (below : location <+: target) :
    ReachesDataPath location target <-> location = "/".toList ∨ target ≠ location := by
  rw [ReachesDataPath, prefixLength]
  rcases ends with rfl | unslashed
  · rw [if_pos (by decide)]
    exact iff_of_true below.length_le (Or.inl rfl)
  · have notRoot : location ≠ "/".toList := by
      rintro rfl
      exact unslashed rfl
    rw [if_neg unslashed]
    constructor
    · rintro long
      right
      rintro rfl
      omega
    · rintro (isRoot | differs)
      · exact absurd isRoot notRoot
      · have short := below.length_le
        have longer : location.length ≠ target.length :=
          fun same => differs (below.eq_of_length same).symm
        omega

/-- A request below the location is answered exactly when the handler has a location, the
target is not just the location where it is cut behind a separator, and a `POST` does not
add one to `INT_MAX`. -/
theorem serve_isWritten_iff (handler : CrudRequestHandler)
    (ends : handler.location = "/".toList ∨ handler.location.getLast? ≠ some '/')
    (configured : handler.dataPath ≠ []) {req : Request} (below : handler.location <+: req.target) :
    IsWritten ((handler.serve junk req res).outcome answer state) req <->
      handler.location ≠ [] ∧
      (mapsTarget req -> handler.location = "/".toList ∨ req.target ≠ handler.location) ∧
      (cString req.method.methodString = "POST".toList -> forall path,
        handler.mapRequestPathToFilePath req.target = .ok path ->
          BelowMax junk (answer (.listFiles path) state).1.2) := by
  have failed : forall {fault : Fault}, handler.serve junk req res = .fail fault ->
      ¬ Exists fun answered : Response =>
        (handler.serve junk req res).outcome answer state = .ok answered := by
    rintro fault fails ⟨answered, isOk⟩
    rw [fails] at isOk
    cases isOk
  rw [isWritten_iff]
  by_cases nonempty : handler.location = []
  · exact iff_of_false (failed (serve_of_emptyLocation nonempty res))
      (fun holds => holds.1 nonempty)
  by_cases maps : mapsTarget req
  · by_cases reaches : ReachesDataPath handler.location req.target
    · rcases map_of_reaches nonempty reaches with ⟨name, mapped⟩
      rw [handler.joinPath_entity configured] at mapped
      rw [serve_isOk_iff answer state nonempty mapped]
      constructor
      · intro fits
        refine ⟨nonempty, fun _ => (reachesDataPath_iff ends below).mp reaches, ?_⟩
        intro post path isPath
        rw [mapped] at isPath
        exact Except.ok.inj isPath ▸ fits post
      · rintro ⟨_, _, fits⟩ post
        exact fits post _ mapped
    · exact iff_of_false (failed (serve_of_mapError nonempty maps (map_of_notReaches nonempty reaches) res))
        (fun holds => reaches ((reachesDataPath_iff ends below).mpr (holds.2.1 maps)))
  · rw [serve_of_otherMethod nonempty maps]
    refine iff_of_true ⟨_, rfl⟩ ⟨nonempty, fun impossible => absurd impossible maps, fun post => ?_⟩
    refine absurd ?_ maps
    rw [mapsTarget, post]
    exact List.mem_cons_self

end Answering

/-- An empty storage. -/
def nothingStored (op : FsCall) (state : Unit) : FsCall.Reply op × Unit :=
  match op with
  | .openInput _ => (none, state)
  | .readFile _ => ((false, []), state)
  | .writeFile _ _ => (true, state)
  | .deleteFile _ => (false, state)
  | .listFiles _ => ((false, []), state)

theorem shoes_isAnswered :
    IsWritten ((sampleHandler.serve (fun _ => CInt.zero) ⟨.post, "/api/shoes".toList, []⟩ {}).outcome
      nothingStored ()) ⟨.post, "/api/shoes".toList, []⟩ :=
  (serve_isWritten_iff nothingStored () sampleHandler (by decide) (by decide) ⟨_, rfl⟩).mpr
    ⟨by decide, fun _ => Or.inr (by decide), fun _ _ isPath => by
      obtain rfl := Except.ok.inj (show Except.ok _ = _ from isPath)
      decide⟩

/-- A request for the location itself ends with an exception. -/
theorem location_isNotAnswered :
    (sampleHandler.location.getLast? ≠ some '/' ∧ sampleHandler.location <+: "/api".toList) ∧
      (sampleHandler.serve (fun _ => CInt.zero) ⟨.get, "/api".toList, []⟩ {}).outcome
        nothingStored () = .error .outOfRange ∧
      ¬ IsWritten ((sampleHandler.serve (fun _ => CInt.zero) ⟨.get, "/api".toList, []⟩ {}).outcome
        nothingStored ()) ⟨.get, "/api".toList, []⟩ := by
  have thrown : (sampleHandler.serve (fun _ => CInt.zero) ⟨.get, "/api".toList, []⟩ {}).outcome
      nothingStored () = .error .outOfRange := by decide
  refine ⟨by decide, thrown, ?_⟩
  rw [isWritten_iff, thrown]
  rintro ⟨res, impossible⟩
  cases impossible

end CrudRequestHandler
end Handlers
end Webserver
