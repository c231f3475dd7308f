import Webserver.Handlers.CrudFreshness

namespace Webserver
namespace Handlers

open Http LexicalPaths Programs Storage

/-!
# `POST` requests on several threads

Each `create` lists the directory of its entity and later writes the file whose
name it has computed from the listing.  The server's threads share the disk and
nothing guards the pair of steps.  Two requests that both list before either
writes choose the same id, and the later write replaces the earlier one.

A schedule is exclusive when no request lists while another one has listed and
not yet written.  Along an exclusive schedule each request goes through its
phases alone: the id it has chosen is still none of the created ones when it
writes, so every created file keeps the body of its own request.
-/

/-- A `POST` waiting to be served: its body and what its uninitialised variable
holds. -/
structure CreateRequest where
  body : Text
  junk : Nat -> CInt

/-- The threads that serve `POST` requests, with the disk they share. -/
abbrev CreatePool := Pool FsCall FsCall.Reply Fault Response Disk

/-- The thread is about to list a directory. -/
def listsNext : Handling Response -> Bool
  | .call (.listFiles _) _ => true
  | _ => false

/-- The thread is about to write a file. -/
def writesNext : Handling Response -> Bool
  | .call (.writeFile _ _) _ => true
  | _ => false

/-- No thread lists while some thread has listed and not yet written. -/
def exclusive : List (Nat × Environment) -> CreatePool -> Bool
  | [], _ => true
  | turn :: rest, pool =>
      (!(pool.threads[turn.1]?.any listsNext && pool.threads.any writesNext)) &&
        exclusive rest (pool.step FileSystem.exec turn)

/-- The thread has ended with an answer that returns an id. -/
def Returned (pool : CreatePool) (thread : Nat) (res : Response) : Prop :=
  pool.threads[thread]? = some (.done res) ∧ res.result = .created

namespace CrudRequestHandler

variable (handler : CrudRequestHandler)

/-- One thread for each request, before any of them has taken a step. -/
def createPool (entity : Name) (requests : List CreateRequest) (disk : Disk) : CreatePool :=
  ⟨requests.map (fun request =>
    handler.serve request.junk (CrudOp.request handler (.post entity request.body)) {}), disk⟩

/-! ## The phases of one request -/

inductive CreatePhase where
  | listing
  | writing (id : CInt)
  | created (id : CInt)
  | failed

/-- The program after the listing, while it still has to write. -/
def writeThenAnswer (entity : Name) (body : Text) (id : CInt) : Handling Response :=
  Program.call (FsCall.writeFile (handler.entityPath entity ++ '/' :: id.toText) body)
    (fun (written : Bool) => if written = false then
      .done { result := .internalServerError } else .done (createdResponse id))

/-- The program before the listing. -/
def listThenWrite (entity : Name) (request : CreateRequest) : Handling Response :=
  Program.call (FsCall.listFiles (handler.entityPath entity)) (fun (listing : Bool × Text) =>
    match chooseId request.junk listing.2 with
    | .error fault => .fail fault
    | .ok id => handler.writeThenAnswer entity request.body id)

/-- The program of a request in a phase. -/
def InPhase (entity : Name) (request : CreateRequest) (program : Handling Response) :
    CreatePhase -> Prop
  | .listing => program = handler.listThenWrite entity request
  | .writing id => program = handler.writeThenAnswer entity request.body id
  | .created id => program = .done (createdResponse id)
  | .failed => program = .done { result := .internalServerError } ∨
      Exists fun fault : Fault => program = .fail fault

theorem serve_post_eq (mounted : handler.Mounted) (plain : '\x00' ∉ handler.location)
    {entity : Name} (valid : ValidName entity) (request : CreateRequest) :
    handler.serve request.junk (CrudOp.request handler (.post entity request.body)) {} =
      handler.listThenWrite entity request := by
  rw [CrudOp.request, serve_post rfl (handler.entityParts_entity mounted.1 plain valid), create,
    handler.mapRequestPathToFilePath_target mounted.1, handler.joinPath_entity mounted.2]
  rw [listThenWrite]
  apply congrArg (Program.call (FsCall.listFiles (handler.entityPath entity)))
  funext listing
  change (Program.ofExcept (chooseId request.junk listing.2) >>= _) = _
  cases chooseId request.junk listing.2 with
  | error fault => rfl
  | ok id => rfl

/-! ## The invariant of an exclusive schedule -/

/-- Every thread is in a phase, at most one is about to write and its id is new,
every created file is found and holds the body of its request, and no two requests
have created the same file. -/
structure Orderly (entity : Name) (requests : List CreateRequest) (pool : CreatePool)
    (phases : Nat -> CreatePhase) : Prop where
  size : pool.threads.length = requests.length
  follows : forall index request program, requests[index]? = some request ->
    pool.threads[index]? = some program -> handler.InPhase entity request program (phases index)
  alone : forall first second firstId secondId, phases first = .writing firstId ->
    phases second = .writing secondId -> first = second
  fresh : forall index id, phases index = .writing id -> index < requests.length ∧
    ValidName id.toText ∧ returnedId (createdResponse id) = id.toText ∧
    forall other otherId, phases other = .created otherId -> otherId.toText ≠ id.toText
  stored : forall index id, phases index = .created id ->
    ValidName id.toText ∧ returnedId (createdResponse id) = id.toText ∧
    Exists fun request : CreateRequest => requests[index]? = some request ∧
      pool.shared.nodeAt (handler.entityPath entity ++ '/' :: id.toText) =
        some (.file request.body)
  distinct : forall first second firstId secondId, first ≠ second ->
    phases first = .created firstId -> phases second = .created secondId ->
    firstId.toText ≠ secondId.toText

/-- The phases after one of them has changed. -/
def advance (phases : Nat -> CreatePhase) (thread : Nat) (phase : CreatePhase) :
    Nat -> CreatePhase :=
  fun index => if index = thread then phase else phases index

theorem advance_self (phases : Nat -> CreatePhase) (thread : Nat) (phase : CreatePhase) :
    advance phases thread phase thread = phase := if_pos rfl

theorem advance_of_ne (phases : Nat -> CreatePhase) {thread index : Nat} (phase : CreatePhase)
    (different : index ≠ thread) : advance phases thread phase index = phases index :=
  if_neg different

theorem advance_cases {phases : Nat -> CreatePhase} {thread index : Nat}
    {phase other : CreatePhase} (now : advance phases thread phase index = other) :
    (index = thread ∧ phase = other) ∨ (index ≠ thread ∧ phases index = other) := by
  by_cases same : index = thread
  · subst same
    exact Or.inl ⟨rfl, (advance_self phases index phase).symm.trans now⟩
  · exact Or.inr ⟨same, (advance_of_ne phases phase same).symm.trans now⟩

variable {handler} {entity : Name} {requests : List CreateRequest} {pool : CreatePool}
  {phases : Nat -> CreatePhase} {thread : Nat}

/-- The programs after one thread has taken a step into its new phase. -/
theorem Orderly.follows_set (orderly : handler.Orderly entity requests pool phases)
    {request : CreateRequest} (requested : requests[thread]? = some request)
    {program : Handling Response} {phase : CreatePhase}
    (inPhase : handler.InPhase entity request program phase) :
    forall index request other, requests[index]? = some request ->
      (pool.threads.set thread program)[index]? = some other ->
      handler.InPhase entity request other (advance phases thread phase index) := by
  intro index otherRequest other otherRequested found
  by_cases same : index = thread
  · subst same
    rw [requested] at otherRequested
    cases otherRequested
    have bound : index < pool.threads.length := by
      rw [orderly.size]
      exact (List.getElem?_eq_some_iff.mp requested).1
    rw [List.getElem?_set_self bound] at found
    cases found
    rw [advance_self]
    exact inPhase
  · rw [List.getElem?_set_ne (Ne.symm same)] at found
    rw [advance_of_ne phases phase same]
    exact orderly.follows index otherRequest other otherRequested found

/-- A thread that stops without creating a file. -/
theorem Orderly.fail (orderly : handler.Orderly entity requests pool phases)
    {request : CreateRequest} (requested : requests[thread]? = some request)
    {program : Handling Response} (failed : handler.InPhase entity request program .failed)
    {disk : Disk} (same : SameFiles pool.shared disk) :
    handler.Orderly entity requests ⟨pool.threads.set thread program, disk⟩
      (advance phases thread .failed) := by
  have earlier : forall index phase, phase ≠ .failed ->
      advance phases thread .failed index = phase -> index ≠ thread ∧ phases index = phase := by
    intro index phase notFailed now
    rcases advance_cases now with ⟨_, impossible⟩ | before
    · exact absurd impossible.symm notFailed
    · exact before
  constructor
  · rw [List.length_set]
    exact orderly.size
  · exact orderly.follows_set requested failed
  · intro first second firstId secondId firstWrites secondWrites
    exact orderly.alone first second firstId secondId
      (earlier first _ (by simp) firstWrites).2 (earlier second _ (by simp) secondWrites).2
  · intro index id writes
    rcases orderly.fresh index id (earlier index _ (by simp) writes).2 with
      ⟨bound, valid, returned, new⟩
    refine ⟨bound, valid, returned, ?_⟩
    intro other otherId created
    exact new other otherId (earlier other _ (by simp) created).2
  · intro index id created
    rcases orderly.stored index id (earlier index _ (by simp) created).2 with
      ⟨valid, returned, request, requested, content⟩
    exact ⟨valid, returned, request, requested, same.nodeAt_file content⟩
  · intro first second firstId secondId different firstCreated secondCreated
    exact orderly.distinct first second firstId secondId different
      (earlier first _ (by simp) firstCreated).2 (earlier second _ (by simp) secondCreated).2

/-- A thread that has listed, while no other thread has a write pending. -/
theorem Orderly.choose (orderly : handler.Orderly entity requests pool phases)
    {request : CreateRequest} (requested : requests[thread]? = some request)
    (noneWriting : forall index id, phases index ≠ .writing id) {id : CInt}
    (valid : ValidName id.toText) (returned : returnedId (createdResponse id) = id.toText)
    (new : forall other otherId, phases other = .created otherId -> otherId.toText ≠ id.toText) :
    handler.Orderly entity requests
      ⟨pool.threads.set thread (handler.writeThenAnswer entity request.body id), pool.shared⟩
      (advance phases thread (.writing id)) := by
  constructor
  · rw [List.length_set]
    exact orderly.size
  · exact orderly.follows_set requested rfl
  · intro first second firstId secondId firstWrites secondWrites
    rcases advance_cases firstWrites with ⟨firstHere, _⟩ | ⟨_, before⟩
    · rcases advance_cases secondWrites with ⟨secondHere, _⟩ | ⟨_, before⟩
      · exact firstHere.trans secondHere.symm
      · exact absurd before (noneWriting second secondId)
    · exact absurd before (noneWriting first firstId)
  · intro index other writes
    rcases advance_cases writes with ⟨here, same⟩ | ⟨_, before⟩
    · cases same
      rw [here]
      refine ⟨(List.getElem?_eq_some_iff.mp requested).1, valid, returned, ?_⟩
      intro created createdId now
      rcases advance_cases now with ⟨_, impossible⟩ | ⟨_, before⟩
      · cases impossible
      · exact new created createdId before
    · exact absurd before (noneWriting index other)
  · intro index other created
    rcases advance_cases created with ⟨_, impossible⟩ | ⟨_, before⟩
    · cases impossible
    · exact orderly.stored index other before
  · intro first second firstId secondId different firstCreated secondCreated
    rcases advance_cases firstCreated with ⟨_, impossible⟩ | ⟨_, firstBefore⟩
    · cases impossible
    · rcases advance_cases secondCreated with ⟨_, impossible⟩ | ⟨_, secondBefore⟩
      · cases impossible
      · exact orderly.distinct first second firstId secondId different firstBefore secondBefore

/-- The thread with the pending write stores its body under the id it has chosen. -/
theorem Orderly.create (mounted : handler.Mounted) (validEntity : ValidName entity)
    (orderly : handler.Orderly entity requests pool phases) {request : CreateRequest}
    (requested : requests[thread]? = some request) {id : CInt}
    (writing : phases thread = .writing id) {disk : Disk}
    (changed : SameFilesExcept (handler.memberKey pool.shared entity id.toText) pool.shared disk)
    (content : disk.nodeAt (handler.entityPath entity ++ '/' :: id.toText) =
      some (.file request.body)) :
    handler.Orderly entity requests
      ⟨pool.threads.set thread (.done (createdResponse id)), disk⟩
      (advance phases thread (.created id)) := by
  rcases orderly.fresh thread id writing with ⟨_, validId, returned, newName⟩
  constructor
  · rw [List.length_set]
    exact orderly.size
  · exact orderly.follows_set requested rfl
  · intro first second firstId secondId firstWrites secondWrites
    rcases advance_cases firstWrites with ⟨_, impossible⟩ | ⟨_, firstBefore⟩
    · cases impossible
    · rcases advance_cases secondWrites with ⟨_, impossible⟩ | ⟨_, secondBefore⟩
      · cases impossible
      · exact orderly.alone first second firstId secondId firstBefore secondBefore
  · intro index other writes
    rcases advance_cases writes with ⟨_, impossible⟩ | ⟨different, before⟩
    · cases impossible
    · exact absurd (orderly.alone index thread other id before writing) different
  · intro index other created
    rcases advance_cases created with ⟨here, same⟩ | ⟨_, before⟩
    · cases same
      exact ⟨validId, returned, request, here ▸ requested, content⟩
    · rcases orderly.stored index other before with
        ⟨otherValid, otherReturned, otherRequest, otherRequested, holds⟩
      refine ⟨otherValid, otherReturned, otherRequest, otherRequested, ?_⟩
      apply changed.nodeAt_file _ holds
      rw [handler.key_member mounted.2 validEntity otherValid]
      intro same
      exact newName index other before (handler.memberKey_injective same).2.symm
  · intro first second firstId secondId different firstCreated secondCreated
    rcases advance_cases firstCreated with ⟨firstHere, firstSame⟩ | ⟨_, firstBefore⟩
    · rcases advance_cases secondCreated with ⟨secondHere, _⟩ | ⟨_, secondBefore⟩
      · exact absurd (firstHere.trans secondHere.symm) different
      · cases firstSame
        exact Ne.symm (newName second secondId secondBefore)
    · rcases advance_cases secondCreated with ⟨_, secondSame⟩ | ⟨_, secondBefore⟩
      · cases secondSame
        exact newName first firstId firstBefore
      · exact orderly.distinct first second firstId secondId different firstBefore secondBefore

/-! ## Whole schedules -/

theorem Orderly.noneWriting (orderly : handler.Orderly entity requests pool phases)
    (noWriter : pool.threads.any writesNext = false) (index : Nat) (id : CInt) :
    phases index ≠ .writing id := by
  intro writing
  rcases orderly.fresh index id writing with ⟨bound, _⟩
  have inRange : index < pool.threads.length := orderly.size ▸ bound
  have inPhase := orderly.follows index _ _ (List.getElem?_eq_getElem bound)
    (List.getElem?_eq_getElem inRange)
  rw [writing] at inPhase
  have writes : writesNext pool.threads[index] = true := by
    rw [inPhase]
    rfl
  exact absurd writes (by simpa using List.any_eq_false.mp noWriter _ (List.getElem_mem inRange))

/-- The step in which a request lists the directory. -/
theorem Orderly.list_step (valid : ValidName entity)
    (orderly : handler.Orderly entity requests pool phases) {request : CreateRequest}
    (requested : requests[thread]? = some request)
    (present : pool.threads[thread]? = some (handler.listThenWrite entity request))
    (noWriter : forall index id, phases index ≠ .writing id) (environment : Environment) :
    Exists fun phases : Nat -> CreatePhase => handler.Orderly entity requests
      (pool.step FileSystem.exec (thread, environment)) phases := by
  rw [Pool.step_of_reply present rfl]
  cases chosen : chooseId request.junk
      (FileSystem.listFiles environment (handler.entityPath entity) pool.shared).2 with
  | error fault => exact ⟨_, orderly.fail requested (Or.inr ⟨fault, rfl⟩) (SameFiles.refl _)⟩
  | ok id =>
      refine ⟨_, orderly.choose requested noWriter (validName_chosen chosen)
        (returnedId_created chosen) ?_⟩
      -- What has been created is found, so the listing has shown it.
      intro index other created same
      rcases orderly.stored index other created with ⟨otherValid, _, _, _, holds⟩
      rcases (Disk.nodeAt_append_name_iff _ (handler.entityPath_ne_nil entity valid.1.1) otherValid.1
        _).mp holds with ⟨directory, present⟩
      rw [same, chosen_free directory chosen] at present
      cases present

/-- The step in which a request writes its file. -/
theorem Orderly.write_step (mounted : handler.Mounted) (valid : ValidName entity)
    (orderly : handler.Orderly entity requests pool phases) {request : CreateRequest}
    (requested : requests[thread]? = some request) {id : CInt} (phase : phases thread = .writing id)
    (present : pool.threads[thread]? = some (handler.writeThenAnswer entity request.body id))
    {environment : Environment} (complete : environment.writeLimit = none) :
    Exists fun phases : Nat -> CreatePhase => handler.Orderly entity requests
      (pool.step FileSystem.exec (thread, environment)) phases := by
  rcases orderly.fresh thread id phase with ⟨_, validId, _⟩
  have outcome := FileSystem.writeFile_cases environment
    (handler.entityPath_ne_nil entity valid.1.1) validId.1 request.body pool.shared
  rw [handler.key_entityPath_append mounted.2 valid,
    Environment.stored_of_complete complete] at outcome
  rcases written : FileSystem.writeFile environment
    (handler.entityPath entity ++ '/' :: id.toText) request.body pool.shared with
    ⟨fault | flag, disk⟩
  all_goals rw [written] at outcome
  · rw [Pool.step_of_fault present written]
    have same := (outcome.resolve_left (by simp)).2
    exact ⟨_, orderly.fail requested (Or.inr ⟨fault, rfl⟩) same⟩
  · rw [Pool.step_of_reply present written]
    cases flag with
    | true =>
        have done := outcome.resolve_right (by simp)
        exact ⟨_, orderly.create mounted valid requested phase done.2.1 done.2.2⟩
    | false =>
        have same := (outcome.resolve_left (by simp)).2
        exact ⟨_, orderly.fail requested (Or.inl rfl) same⟩

/-- One step of an exclusive schedule.  A request that lists or writes takes its next
step, and one that has answered or failed is over. -/
theorem orderly_step (mounted : handler.Mounted) (valid : ValidName entity)
    (orderly : handler.Orderly entity requests pool phases) (thread : Nat)
    {environment : Environment} (complete : environment.writeLimit = none)
    (alone : pool.threads[thread]?.any listsNext = true -> pool.threads.any writesNext = false) :
    Exists fun phases : Nat -> CreatePhase => handler.Orderly entity requests
      (pool.step FileSystem.exec (thread, environment)) phases := by
  cases present : pool.threads[thread]? with
  | none =>
      rw [Pool.step_of_idle (by simp [present])]
      exact ⟨phases, orderly⟩
  | some program =>
      have bound : thread < requests.length := by
        rw [← orderly.size]
        exact (List.getElem?_eq_some_iff.mp present).1
      obtain ⟨request, requested⟩ : Exists fun request : CreateRequest =>
        requests[thread]? = some request := ⟨_, List.getElem?_eq_getElem bound⟩
      have inPhase := orderly.follows thread request program requested present
      cases phase : phases thread with
      | listing =>
          rw [phase] at inPhase
          cases inPhase
          exact orderly.list_step valid requested present
            (orderly.noneWriting (alone (by rw [present]; rfl))) environment
      | writing id =>
          rw [phase] at inPhase
          cases inPhase
          exact orderly.write_step mounted valid requested phase present complete
      | created id =>
          rw [phase] at inPhase
          cases inPhase
          rw [Pool.step_of_idle (by simp [present])]
          exact ⟨phases, orderly⟩
      | failed =>
          rw [phase] at inPhase
          rcases inPhase with rfl | ⟨fault, rfl⟩
          · rw [Pool.step_of_idle (by simp [present])]
            exact ⟨phases, orderly⟩
          · rw [Pool.step_of_idle (by simp [present])]
            exact ⟨phases, orderly⟩

/-- An exclusive schedule keeps the pool orderly. -/
theorem orderly_run (mounted : handler.Mounted) (valid : ValidName entity)
    {schedule : List (Nat × Environment)}
    (complete : forall turn, turn ∈ schedule -> turn.2.writeLimit = none)
    (alone : exclusive schedule pool = true)
    (orderly : handler.Orderly entity requests pool phases) :
    Exists fun phases : Nat -> CreatePhase => handler.Orderly entity requests
      (Pool.run FileSystem.exec schedule pool) phases := by
  induction schedule generalizing pool phases with
  | nil => exact ⟨phases, orderly⟩
  | cons turn rest inductionHypothesis =>
      rw [exclusive, Bool.and_eq_true] at alone
      have apart : pool.threads[turn.1]?.any listsNext = true ->
          pool.threads.any writesNext = false := by
        intro lists
        simpa [lists] using alone.1
      rcases orderly_step mounted valid orderly turn.1 (complete turn List.mem_cons_self) apart with
        ⟨next, kept⟩
      rw [Pool.run_cons]
      exact inductionHypothesis (fun later member => complete later (List.mem_cons_of_mem _ member))
        alone.2 kept

theorem orderly_createPool (mounted : handler.Mounted) (plain : '\x00' ∉ handler.location)
    (valid : ValidName entity) (disk : Disk) :
    handler.Orderly entity requests (handler.createPool entity requests disk)
      (fun _ => .listing) := by
  constructor
  · exact List.length_map _
  · intro index request program requested found
    rw [createPool, List.getElem?_map, requested, Option.map_some] at found
    cases found
    exact handler.serve_post_eq mounted plain valid request
  all_goals
    intros
    simp_all

/-- Without a location or a data path every thread has failed from the start. -/
theorem serve_post_unmounted (unmounted : ¬ handler.Mounted) (plain : '\x00' ∉ handler.location)
    (valid : ValidName entity) (request : CreateRequest) :
    handler.serve request.junk (CrudOp.request handler (.post entity request.body)) {} =
      .fail .undefinedBehavior := by
  by_cases located : handler.location = []
  · have parts : handler.entityParts (cString (handler.target entity)) =
        .error .undefinedBehavior := by
      simp only [entityParts, prefixSize, located, List.getLast?_nil, bind, Except.bind]
    rw [CrudOp.request, serve, serveReading, parts]
    rfl
  · have missing : handler.dataPath = [] := by
      by_contra configured
      exact unmounted ⟨located, configured⟩
    rw [CrudOp.request, serve_post rfl (handler.entityParts_entity located plain valid), create,
      handler.mapRequestPathToFilePath_target located, joinPath, missing]
    rfl

theorem run_unmounted (unmounted : ¬ handler.Mounted) (plain : '\x00' ∉ handler.location)
    (valid : ValidName entity) (disk : Disk) (schedule : List (Nat × Environment)) :
    Pool.run FileSystem.exec schedule (handler.createPool entity requests disk) =
      handler.createPool entity requests disk := by
  induction schedule with
  | nil => rfl
  | cons turn rest inductionHypothesis =>
      rw [Pool.run_cons, Pool.step_of_idle]
      · exact inductionHypothesis
      · intro op next found
        simp only [createPool, List.getElem?_map, Option.map_eq_some_iff] at found
        rcases found with ⟨request, _, same⟩
        rw [serve_post_unmounted unmounted plain valid] at same
        cases same

/-- The final pool is orderly, unless no thread returns anything. -/
theorem orderly_or_silent (plain : '\x00' ∉ handler.location) (valid : ValidName entity)
    (disk : Disk) {schedule : List (Nat × Environment)}
    (complete : forall turn, turn ∈ schedule -> turn.2.writeLimit = none)
    (alone : exclusive schedule (handler.createPool entity requests disk) = true) :
    (handler.Mounted ∧ Exists fun phases : Nat -> CreatePhase => handler.Orderly entity requests
      (Pool.run FileSystem.exec schedule (handler.createPool entity requests disk)) phases) ∨
    forall thread res, ¬ Returned
      (Pool.run FileSystem.exec schedule (handler.createPool entity requests disk)) thread res := by
  by_cases mounted : handler.Mounted
  · exact Or.inl ⟨mounted, orderly_run mounted valid complete alone
      (orderly_createPool mounted plain valid disk)⟩
  · right
    intro thread res returned
    have found := returned.1
    rw [run_unmounted mounted plain valid, createPool, List.getElem?_map,
      Option.map_eq_some_iff] at found
    rcases found with ⟨request, _, same⟩
    rw [serve_post_unmounted mounted plain valid] at same
    cases same

/-- A thread that has returned an id is in the phase of that id. -/
theorem Orderly.of_returned (orderly : handler.Orderly entity requests pool phases)
    {res : Response} (returned : Returned pool thread res) :
    Exists fun id : CInt => phases thread = .created id ∧ returnedId res = id.toText := by
  rcases returned with ⟨found, status⟩
  have bound : thread < requests.length := by
    rw [← orderly.size]
    exact (List.getElem?_eq_some_iff.mp found).1
  have inPhase := orderly.follows thread _ _ (List.getElem?_eq_getElem bound) found
  cases phase : phases thread with
  | created id =>
      rw [phase] at inPhase
      cases inPhase
      exact ⟨id, rfl, (orderly.stored thread id phase).2.1⟩
  | listing =>
      rw [phase] at inPhase
      cases inPhase
  | writing id =>
      rw [phase] at inPhase
      cases inPhase
  | failed =>
      rw [phase] at inPhase
      rcases inPhase with same | ⟨fault, impossible⟩
      · cases same
        cases status
      · cases impossible

/-- Along every exclusive schedule the ids returned by `POST` requests to one
entity are pairwise distinct, and the file of each returned id holds the body
of the request that was given it. -/
theorem exclusive_creates_lose_nothing (handler : CrudRequestHandler)
    (plain : '\x00' ∉ handler.location) (entity : Name) (valid : ValidName entity)
    (requests : List CreateRequest) (disk : Disk) (schedule : List (Nat × Environment))
    (complete : forall turn, turn ∈ schedule -> turn.2.writeLimit = none)
    (alone : exclusive schedule (handler.createPool entity requests disk) = true) :
    let final := Pool.run FileSystem.exec schedule (handler.createPool entity requests disk)
    (forall (first second : Nat) (firstRes secondRes : Response), first ≠ second ->
      Returned final first firstRes -> Returned final second secondRes ->
      returnedId firstRes ≠ returnedId secondRes) ∧
    (forall (thread : Nat) (request : CreateRequest) (res : Response),
      requests[thread]? = some request -> Returned final thread res ->
      final.shared.fileAt (handler.memberKey final.shared entity (returnedId res)) =
        some request.body) := by
  intro final
  rcases orderly_or_silent plain valid disk complete alone with ⟨mounted, phases, orderly⟩ | silent
  · constructor
    · intro first second firstRes secondRes different firstReturned secondReturned
      rcases orderly.of_returned firstReturned with ⟨firstId, firstCreated, firstName⟩
      rcases orderly.of_returned secondReturned with ⟨secondId, secondCreated, secondName⟩
      rw [firstName, secondName]
      exact orderly.distinct first second firstId secondId different firstCreated secondCreated
    · intro thread request res requested returned
      rcases orderly.of_returned returned with ⟨id, created, name⟩
      rcases orderly.stored thread id created with ⟨validId, _, other, otherRequested, content⟩
      rw [requested] at otherRequested
      cases otherRequested
      rw [name, ← handler.key_member mounted.2 valid validId]
      exact ((Disk.nodeAt_eq_file_iff _ _ _).mp content).2.2.2
  · constructor
    · intro first second firstRes secondRes different firstReturned
      exact absurd firstReturned (silent first firstRes)
    · intro thread request res requested returned
      exact absurd returned (silent thread res)

/-- Two requests to the same entity. -/
def twoRequests : List CreateRequest :=
  [⟨"a".toList, fun _ => CInt.zero⟩, ⟨"b".toList, fun _ => CInt.zero⟩]

/-- Threads taking turns under an operating system that refuses nothing. -/
def willingSchedule (threads : List Nat) : List (Nat × Environment) :=
  threads.map (fun thread => (thread, Environment.willing))

theorem serial_creates_lose_nothing :
    let final := Pool.run FileSystem.exec (willingSchedule [0, 0, 1, 1])
      (sampleHandler.createPool "shoes".toList twoRequests Disk.empty)
    (forall (first second : Nat) (firstRes secondRes : Response), first ≠ second ->
      Returned final first firstRes -> Returned final second secondRes ->
      returnedId firstRes ≠ returnedId secondRes) ∧
    (forall (thread : Nat) (request : CreateRequest) (res : Response),
      twoRequests[thread]? = some request -> Returned final thread res ->
      final.shared.fileAt (sampleHandler.memberKey final.shared "shoes".toList (returnedId res)) =
        some request.body) :=
  exclusive_creates_lose_nothing sampleHandler (by decide) "shoes".toList (by decide) twoRequests
    Disk.empty (willingSchedule [0, 0, 1, 1])
    (by
      intro turn member
      rcases List.mem_map.mp member with ⟨thread, _, rfl⟩
      rfl)
    (by decide)

/-- When both requests list before either writes, both are answered with the id
1, and the body of the first is lost. -/
theorem interleaved_creates_collide :
    let final := Pool.run FileSystem.exec (willingSchedule [0, 1, 0, 1])
      (sampleHandler.createPool "shoes".toList twoRequests Disk.empty)
    Returned final 0 (createdResponse ⟨1, by decide, by decide⟩) ∧
      Returned final 1 (createdResponse ⟨1, by decide, by decide⟩) ∧
      final.shared.fileAt (sampleHandler.memberKey final.shared "shoes".toList "1".toList) =
        some "b".toList := by
  refine ⟨⟨rfl, rfl⟩, ⟨rfl, rfl⟩, by decide⟩

end CrudRequestHandler
end Handlers
end Webserver
