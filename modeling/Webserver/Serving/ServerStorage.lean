import Webserver.Routing.SafeRequests
import Webserver.Routing.Separation
import Webserver.Serving.ServerRuns

namespace Webserver
namespace Serving

open Handlers Http LexicalPaths Programs Routing Storage

/-!
# The server's storage

What all sessions together do to the files.  The calls of a session come from the handler
for the one request that it has handed over, so that what is known of these requests
holds of every run, however the sessions interleave.
-/

/-! ## Roots and factories -/

/-- The kinds of handlers that call storage. -/
def usesStorage : HandlerKind -> Bool
  | .static => true
  | .crud => true
  | .markdown => true
  | _ => false

theorem create_root {factory : RequestHandlerFactory} {location url fileName root : Text}
    (configured : (factory.create location url fileName).root = some root) :
    usesStorage factory.kind = true ∧ factory.root = root := by
  rcases factory with ⟨kind, factoryRoot⟩
  cases kind with
  | static => exact ⟨rfl, Option.some.inj configured⟩
  | crud => exact ⟨rfl, Option.some.inj configured⟩
  | markdown => exact ⟨rfl, Option.some.inj configured⟩
  | echo => cases configured
  | error => cases configured
  | health => cases configured
  | sleep => cases configured

/-- A request adds no factory to the table. -/
theorem routes_getHandler {dispatcher : Dispatcher} {req : Request} {path : Text}
    {factory : RequestHandlerFactory}
    (found : (dispatcher.getHandler req).2.routes.lookup path = some (some factory)) :
    dispatcher.routes.lookup path = some (some factory) := by
  have kept : forall routes : Routes, (routes.subscript "/".toList none).2.lookup path =
      some (some factory) -> routes.lookup path = some (some factory) := by
    intro routes found
    rw [SortedMap.subscript] at found
    split at found
    · exact found
    · rw [SortedMap.lookup_assign] at found
      split at found
      · cases found
      · exact found
  unfold Dispatcher.getHandler at found
  cases matched : dispatcher.routes.lookup (Dispatcher.splitUri dispatcher.routes req.target).1 with
  | some stored =>
      simp only [matched] at found
      cases stored with
      | none => exact found
      | some stored => exact found
  | none =>
      simp only [matched] at found
      apply kept
      split at found
      · exact found
      · exact found

namespace Server

/-! ## What has been handed over -/

/-- Every request that a session has handed over has the property. -/
def Handed (property : Dispatcher -> Request -> Prop) (server : Server) : Prop :=
  forall connection, connection ∈ server.connections -> forall req, connection.handed = some req ->
    property connection.dispatcher req

/-- What has been handed over stays. -/
theorem handed_of_step {property : Dispatcher -> Request -> Prop} {server : Server}
    (sound : server.Sound) (event : Event)
    (handed : (server.step event).Handed property) : server.Handed property := by
  intro connection member req here
  cases event with
  | accepted dispatcher data => exact handed connection (List.mem_append_left _ member) req here
  | refused dispatcher data => exact handed connection member req here
  | session index step =>
      rw [Server.step] at handed
      cases found : server.connections[index]? with
      | none =>
          rw [found] at handed
          exact handed connection member req here
      | some other =>
          rw [found] at handed
          dsimp only at handed
          rcases List.getElem?_of_mem member with ⟨place, present⟩
          by_cases same : index = place
          · subst same
            rw [found] at present
            cases present
            have after := handed _ (List.mem_set (List.getElem?_eq_some_iff.mp found).1 _) req
            generalize outcome : connection.step server.disk step = result at after
            have stepped := Connection.step_cases connection server.disk step
            rw [outcome] at stepped
            cases stepped with
            | idle step => exact after here
            | read reading handled =>
                have unread := (sound.connections _ member).unread (Or.inr reading)
                rw [unread] at here
                cases here
            | called environment serving => exact after here
            | wrote serving => exact after here
            | ended step quiet => exact after here
          · rw [← List.getElem?_set_ne same] at present
            exact handed connection (List.mem_of_getElem? present) req here

theorem handed_of_run {property : Dispatcher -> Request -> Prop} {server : Server}
    (sound : server.Sound) (events : List Event)
    (handed : (server.run events).Handed property) : server.Handed property := by
  induction events generalizing server with
  | nil => exact handed
  | cons event rest inductionHypothesis =>
      exact handed_of_step sound event (inductionHypothesis (sound.step event) handed)

/-- What the steps for the requests handed over keep, the server keeps. -/
theorem run_keeps {allowed : FsStep -> Prop} {invariant : Disk -> Prop}
    {property : Dispatcher -> Request -> Prop}
    (keeps : forall (environment : Environment) (step : FsStep) (disk : Disk), allowed step ->
      invariant disk -> invariant (step.exec environment disk).2)
    (calls : forall dispatcher req handler convert junk, property dispatcher req ->
      (dispatcher.getHandler req).1 = .ok handler ->
      (handler.handleRequest convert junk req {}).stepwise.CallsOnly allowed)
    {server : Server} (sound : server.Sound) (events : List Event)
    (handed : (server.run events).Handed property) (holds : invariant server.disk) :
    invariant (server.run events).disk := by
  induction events generalizing server with
  | nil => exact holds
  | cons event rest inductionHypothesis =>
      refine inductionHypothesis (sound.step event) handed ?_
      have before := handed_of_run sound (event :: rest) handed
      cases event with
      | accepted dispatcher data => exact holds
      | refused dispatcher data => exact holds
      | session index step =>
          rw [Server.step]
          cases found : server.connections[index]? with
          | none => exact holds
          | some connection =>
              have member := List.mem_of_getElem? found
              dsimp only
              generalize outcome : connection.step server.disk step = result
              have stepped := Connection.step_cases connection server.disk step
              rw [outcome] at stepped
              cases stepped with
              | idle step => exact holds
              | read reading handled => exact holds
              | called environment serving =>
                  cases (sound.connections connection member).serving _ serving with
                  | served req handler convert junk given read built leads =>
                      have confined :=
                        calls _ req handler convert junk (before connection member req given) built
                      exact keeps environment _ _ (Pool.callsOnly_of_leads confined leads).1 holds
              | wrote serving => exact holds
              | ended step quiet => exact holds

/-! ## The roots -/

/-- The handlers that call storage have one of these roots. -/
def RootsIn (roots : List Text) (dispatcher : Dispatcher) : Prop :=
  forall path factory, dispatcher.routes.lookup path = some (some factory) ->
    usesStorage factory.kind = true -> factory.root ∈ roots

/-- The event sets up sessions with these roots only. -/
def SetsUp (roots : List Text) : Event -> Prop
  | .accepted dispatcher _ => RootsIn roots dispatcher
  | .refused dispatcher _ => RootsIn roots dispatcher
  | .session _ _ => True

theorem rootsIn_step {roots : List Text} {connection : Connection}
    (rootsIn : RootsIn roots connection.dispatcher) (disk : Disk) (step : Connection.Step) :
    RootsIn roots (connection.step disk step).1.dispatcher := by
  generalize outcome : connection.step disk step = result
  have stepped := Connection.step_cases connection disk step
  rw [outcome] at stepped
  cases stepped with
  | idle step => exact rootsIn
  | read reading handled =>
      cases handled with
      | broken quiet dispatcher =>
          rcases dispatcher with same | ⟨req, asked⟩
          · rw [same]
            exact rootsIn
          · rw [asked]
            exact fun path factory found => rootsIn path factory (routes_getHandler found)
      | rejected read => exact rootsIn
      | served req handler read built => exact rootsIn
  | called environment serving => exact rootsIn
  | wrote serving => exact rootsIn
  | ended step quiet => exact rootsIn

theorem rootsIn_run {roots : List Text} {server : Server} (waiting : RootsIn roots server.waiting.dispatcher)
    (rootsIn : forall connection, connection ∈ server.connections -> RootsIn roots connection.dispatcher)
    (events : List Event) (setsUp : forall event, event ∈ events -> SetsUp roots event) :
    forall connection, connection ∈ (server.run events).connections ->
      RootsIn roots connection.dispatcher := by
  induction events generalizing server with
  | nil => exact rootsIn
  | cons event rest inductionHypothesis =>
      have first := setsUp event List.mem_cons_self
      have others := fun other member => setsUp other (List.mem_cons_of_mem event member)
      rw [run_cons]
      cases event with
      | accepted dispatcher data =>
          refine inductionHypothesis first ?_ others
          intro connection member
          rcases List.mem_append.mp member with old | new
          · exact rootsIn connection old
          · rw [List.mem_singleton.mp new]
            exact waiting
      | refused dispatcher data => exact inductionHypothesis first rootsIn others
      | session index step =>
          rw [Server.step]
          cases found : server.connections[index]? with
          | none => exact inductionHypothesis waiting rootsIn others
          | some connection =>
              refine inductionHypothesis waiting ?_ others
              intro other member
              rcases List.mem_or_eq_of_mem_set member with old | new
              · exact rootsIn other old
              · rw [new]
                exact rootsIn_step (rootsIn connection (List.mem_of_getElem? found)) server.disk step

/-- The steps near one of the roots. -/
def WithinSome (disk : Disk) (roots : List Text) (step : FsStep) : Prop :=
  Exists fun root : Text => root ∈ roots ∧ disk.Within root step

theorem handleRequest_withinSome {roots : List Text} {dispatcher : Dispatcher}
    (rootsIn : RootsIn roots dispatcher) (anchored : forall root, root ∈ roots -> Anchored root)
    {req : Request} {handler : RequestHandler} (built : (dispatcher.getHandler req).1 = .ok handler)
    (below : handler.NamesBelow req) (disk : Disk) (convert : Text -> Except Fault Text)
    (junk : Nat -> CInt) :
    (handler.handleRequest convert junk req {}).stepwise.CallsOnly (WithinSome disk roots) := by
  cases configured : handler.root with
  | none =>
      have nothing := handleRequest_of_noRoot configured convert junk req {} (fun _ => False)
      exact Program.CallsOnly.expand nothing (fun _ impossible => impossible.elim)
  | some root =>
      rcases (factory_of_getHandler built).1 with ⟨path, factory, location, fileName, found, rfl⟩
      rcases create_root configured with ⟨uses, same⟩
      have member : root ∈ roots := same ▸ rootsIn path factory found uses
      have within := handleRequest_within configured (anchored root member) below disk convert junk {}
      exact within.mono (fun step near => ⟨root, member, near⟩)

/-- In every run of the server, a file outside the directories of all configured roots
stays as it is, as long as no request climbs above the root of the handler that it
reaches. -/
theorem server_confined (roots : List Text) (anchored : forall root, root ∈ roots -> Anchored root)
    (dispatcher : Dispatcher) (data : Buffer) (disk : Disk) (events : List Event)
    (rootsIn : RootsIn roots dispatcher) (setsUp : forall event, event ∈ events -> SetsUp roots event)
    (below : ((init dispatcher data disk).run events).Handed
      (fun dispatcher req => forall handler, (dispatcher.getHandler req).1 = .ok handler ->
        handler.NamesBelow req))
    (key : Key) (outside : forall root, root ∈ roots -> ¬ disk.key root <+: key) :
    ((init dispatcher data disk).run events).disk.fileAt key = disk.fileAt key := by
  have everywhere : forall connection,
      connection ∈ ((init dispatcher data disk).run events).connections ->
        RootsIn roots connection.dispatcher :=
    rootsIn_run rootsIn (fun _ member => absurd member List.not_mem_nil) events setsUp
  have keeps : forall (environment : Environment) (step : FsStep) (before : Disk),
      WithinSome disk roots step -> before.cwd = disk.cwd ∧ before.fileAt key = disk.fileAt key ->
        (step.exec environment before).2.cwd = disk.cwd ∧
          (step.exec environment before).2.fileAt key = disk.fileAt key := by
    rintro environment step before ⟨root, member, within⟩ ⟨cwd, same⟩
    refine ⟨(exec_cwd environment step before).trans cwd, ?_⟩
    rw [fileAt_exec_outside cwd within environment (outside root member), same]
  have calls : forall (dispatcher : Dispatcher) (req : Request) (handler : RequestHandler)
      (convert : Text -> Except Fault Text) (junk : Nat -> CInt),
      (RootsIn roots dispatcher ∧ forall handler, (dispatcher.getHandler req).1 = .ok handler ->
        handler.NamesBelow req) -> (dispatcher.getHandler req).1 = .ok handler ->
          (handler.handleRequest convert junk req {}).stepwise.CallsOnly (WithinSome disk roots) :=
    fun dispatcher req handler convert junk holds built =>
      handleRequest_withinSome holds.1 anchored built (holds.2 handler built) disk convert junk
  have handed : ((init dispatcher data disk).run events).Handed
      (fun dispatcher req => RootsIn roots dispatcher ∧ forall handler,
        (dispatcher.getHandler req).1 = .ok handler -> handler.NamesBelow req) :=
    fun connection member req given =>
      ⟨everywhere connection member, below connection member req given⟩
  exact (run_keeps keeps calls (sound_init dispatcher data disk) events handed ⟨rfl, rfl⟩).2

/-- A file next to the root stays while a file below the root is written. -/
theorem samplePut_confined :
    (sampleRun samplePut).disk.fileAt ["data".toList, "Shoes".toList, "1".toList] = some "x".toList ∧
      (sampleRun samplePut).disk.fileAt ["notes".toList] = sampleDisk.fileAt ["notes".toList] := by
  refine ⟨rfl, ?_⟩
  have rootsIn : RootsIn ["/data".toList] sampleTable := by
    intro path factory found _
    rw [sampleTable, SortedMap.lookup_assign] at found
    split at found
    · cases found
      exact List.mem_cons_self
    · cases found
  have setsUp : forall event, event ∈ sampleEvents samplePut -> SetsUp ["/data".toList] event := by
    simp only [sampleEvents, List.mem_cons, List.not_mem_nil, or_false]
    rintro event (rfl | rfl | rfl | rfl | rfl)
    · exact rootsIn
    all_goals exact trivial
  have below : (sampleRun samplePut).Handed (fun dispatcher req => forall handler,
      (dispatcher.getHandler req).1 = .ok handler -> handler.NamesBelow req) := by
    have one : Exists fun connection : Connection =>
        (sampleRun samplePut).connections = [connection] ∧ connection.dispatcher = sampleTable ∧
          connection.handed = some ⟨.put, "/api/Shoes/1".toList, "x".toList⟩ := ⟨_, rfl, rfl, rfl⟩
    rcases one with ⟨only, connections, table, given⟩
    intro connection member req handed handler built
    rw [connections, List.mem_singleton] at member
    subst member
    rw [given] at handed
    cases handed
    rw [table] at built
    cases built
    decide
  exact server_confined ["/data".toList] (by decide) sampleTable Buffer.blank sampleDisk
    (sampleEvents samplePut) rootsIn setsUp below ["notes".toList] (by decide)

/-! ## Safe requests -/

/-- A run of the server in which no request is one that may change what is stored leaves the
storage as it is. -/
theorem safe_requests_change_nothing (dispatcher : Dispatcher) (data : Buffer) (disk : Disk)
    (events : List Event)
    (safe : ((init dispatcher data disk).run events).Handed
      (fun dispatcher req => forall handler, (dispatcher.getHandler req).1 = .ok handler ->
        ¬ handler.MayChange req)) :
    ((init dispatcher data disk).run events).disk = disk := by
  have keeps : forall (environment : Environment) (step : FsStep) (before : Disk),
      ReadingStep step -> before = disk -> (step.exec environment before).2 = disk :=
    fun environment step before reads same => (exec_of_readingStep reads environment before).trans same
  have calls : forall (dispatcher : Dispatcher) (req : Request) (handler : RequestHandler)
      (convert : Text -> Except Fault Text) (junk : Nat -> CInt),
      (forall handler, (dispatcher.getHandler req).1 = .ok handler -> ¬ handler.MayChange req) ->
        (dispatcher.getHandler req).1 = .ok handler ->
          (handler.handleRequest convert junk req {}).stepwise.CallsOnly ReadingStep :=
    fun dispatcher req handler convert junk safe built =>
      Program.CallsOnly.expand (handleRequest_reads (safe handler built) convert junk {})
        (fun _ reads => steps_of_reads reads)
  exact run_keeps keeps calls (sound_init dispatcher data disk) events safe rfl

def sampleGet : Chunk := ⟨"GET /api/Shoes HTTP/1.1\r\n\r\n".toList, by decide, by decide⟩

theorem sampleGet_changesNothing : (sampleRun sampleGet).disk = sampleDisk := by
  have safe : (sampleRun sampleGet).Handed (fun dispatcher req => forall handler,
      (dispatcher.getHandler req).1 = .ok handler -> ¬ handler.MayChange req) := by
    have one : Exists fun connection : Connection =>
        (sampleRun sampleGet).connections = [connection] ∧ connection.dispatcher = sampleTable ∧
          connection.handed = some ⟨.get, "/api/Shoes".toList, []⟩ := ⟨_, rfl, rfl, rfl⟩
    rcases one with ⟨only, connections, table, given⟩
    intro connection member req handed handler built
    rw [connections, List.mem_singleton] at member
    subst member
    rw [given] at handed
    cases handed
    rw [table] at built
    cases built
    decide
  exact safe_requests_change_nothing sampleTable Buffer.blank sampleDisk (sampleEvents sampleGet) safe

/-! ## Directories -/

/-- The other case comes about.  One DELETE has seen the file `x`; a second one removes it,
and a directory takes its place that is empty again when the first goes on. -/
example :
    let serve := fun (method : Verb) (name : String) =>
      (⟨.crud ⟨"/api".toList, "/data".toList⟩, ⟨method, ("/api/a/" ++ name).toList, []⟩, .ok,
        fun _ => CInt.zero⟩ : Job)
    let jobs := [serve .delete_ "x", serve .delete_ "x", serve .put "x/1", serve .delete_ "x/1"]
    let disk := (sampleDisk.place ["data".toList, "a".toList] .directory).place
      ["data".toList, "a".toList, "x".toList] (.file [])
    let turns := fun threads : List Nat => threads.map (fun thread => (thread, Environment.willing))
    let before := (jobPool jobs disk).run FsStep.exec (turns [0, 1, 1, 2, 2, 3, 3])
    let key := ["data".toList, "a".toList, "x".toList]
    before.shared.node key = some .directory ∧
      (before.run FsStep.exec (turns [0])).shared.node key = none :=
  ⟨rfl, rfl⟩

end Server

end Serving
end Webserver
