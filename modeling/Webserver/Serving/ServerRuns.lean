import Webserver.Serving.Server

namespace Webserver
namespace Serving

open Config Handlers Http Programs Routing Storage

/-!
# Runs of the server

What holds after any events in any order: how sessions, handlers and storage calls
interleave is up to the events.
-/

/-! ## What the dispatcher builds -/

/-- A handler is built by a factory of the table, and the table stays as it is. -/
theorem factory_of_getHandler {dispatcher : Dispatcher} {req : Request} {handler : RequestHandler}
    (built : (dispatcher.getHandler req).1 = .ok handler) :
    (Exists fun path : Text => Exists fun factory : RequestHandlerFactory =>
      Exists fun location : Text => Exists fun fileName : Text =>
        dispatcher.routes.lookup path = some (some factory) ∧
          handler = factory.create location req.target fileName) ∧
    (dispatcher.getHandler req).2 = dispatcher := by
  unfold Dispatcher.getHandler at built ⊢
  cases found : dispatcher.routes.lookup (Dispatcher.splitUri dispatcher.routes req.target).1 with
  | some factory =>
      simp only [found] at built ⊢
      cases factory with
      | none => cases built
      | some factory => exact ⟨⟨_, factory, _, _, found, (Except.ok.inj built).symm⟩, rfl⟩
  | none =>
      simp only [found] at built ⊢
      rw [SortedMap.subscript] at built ⊢
      cases fallback : dispatcher.routes.lookup "/".toList with
      | none =>
          rw [fallback] at built
          cases built
      | some factory =>
          rw [fallback] at built
          cases factory with
          | none => cases built
          | some factory => exact ⟨⟨_, factory, _, _, fallback, (Except.ok.inj built).symm⟩, rfl⟩

/-! ## Steps of a session -/

/-- Nothing will happen to the session any more. -/
def Phase.ended : Phase -> Bool
  | .written _ => true
  | .caught => true
  | .stopped _ => true
  | .deleted => true
  | _ => false

/-- The session has come to its end without a response. -/
def Phase.broken : Phase -> Bool
  | .caught => true
  | .stopped _ => true
  | .deleted => true
  | _ => false

namespace Connection

theorem catchFault_broken (connection : Connection) (fault : Fault) :
    (connection.catchFault fault).phase.broken = true := by
  rw [catchFault]
  dsimp only
  split
  · rfl
  · rfl

/-- How a completed read leaves a session. -/
inductive HasRead (connection : Connection) (chunk : Chunk) (convert : Text -> Except Fault Text)
    (junk : Nat -> CInt) : Connection -> Prop
  | broken {after : Connection} (quiet : after.phase.broken = true)
      (dispatcher : after.dispatcher = connection.dispatcher ∨
        Exists fun req : Request => after.dispatcher = (connection.dispatcher.getHandler req).2) :
      HasRead connection chunk convert junk after
  | rejected (read : createRequest (connection.data.receive chunk) = .ok none) :
      HasRead connection chunk convert junk { connection with
        data := connection.data.receive chunk
        phase := .serving (pure { result := .badRequest }) }
  | served (req : Request) (handler : RequestHandler)
      (read : createRequest (connection.data.receive chunk) = .ok (some req))
      (built : (connection.dispatcher.getHandler req).1 = .ok handler) :
      HasRead connection chunk convert junk ⟨connection.dispatcher, connection.data.receive chunk,
        some req, .serving (handler.handleRequest convert junk req {}).stepwise⟩

theorem handleRead_cases (connection : Connection) (chunk : Chunk)
    (convert : Text -> Except Fault Text) (junk : Nat -> CInt) :
    HasRead connection chunk convert junk (connection.handleRead convert junk chunk) := by
  rw [handleRead]
  dsimp only
  cases read : createRequest (connection.data.receive chunk) with
  | error fault => exact .broken (catchFault_broken _ fault) (Or.inl rfl)
  | ok parsed =>
      cases parsed with
      | none => exact .rejected read
      | some req =>
          dsimp only
          cases built : (connection.dispatcher.getHandler req).1 with
          | error fault => exact .broken (catchFault_broken _ fault) (Or.inr ⟨req, rfl⟩)
          | ok handler =>
              dsimp only
              rw [(factory_of_getHandler built).2]
              exact .served req handler read built

/-- How a step goes: nothing happens, a read is handled, the handler takes a step in the
storage, or the session comes to an end. -/
inductive HasStepped (connection : Connection) (disk : Disk) : Step -> Connection × Disk -> Prop
  | idle (step : Step) : HasStepped connection disk step (connection, disk)
  | read {chunk : Chunk} {convert : Text -> Except Fault Text} {junk : Nat -> CInt}
      {after : Connection} (reading : connection.phase = .reading)
      (handled : HasRead connection chunk convert junk after) :
      HasStepped connection disk (.read chunk convert junk) (after, disk)
  | called {op : FsStep} {next : op.Reply -> Stepping Response} (environment : Environment)
      (serving : connection.phase = .serving (.call op next)) :
      HasStepped connection disk (.call environment)
        ({ connection with phase := .serving (Pool.resume next (op.exec environment disk).1) },
          (op.exec environment disk).2)
  | wrote {res : Response} (serving : connection.phase = .serving (.done res)) :
      HasStepped connection disk (.write false) ({ connection with phase := .written res }, disk)
  | ended (step : Step) {phase : Phase} (quiet : phase.broken = true) :
      HasStepped connection disk step ({ connection with phase := phase }, disk)

theorem step_cases (connection : Connection) (disk : Disk) (step : Step) :
    HasStepped connection disk step (connection.step disk step) := by
  cases phase : connection.phase with
  | accepting => cases step <;> (rw [Connection.step, phase]; exact .idle _)
  | written res => cases step <;> (rw [Connection.step, phase]; exact .idle _)
  | caught => cases step <;> (rw [Connection.step, phase]; exact .idle _)
  | stopped fault => cases step <;> (rw [Connection.step, phase]; exact .idle _)
  | deleted => cases step <;> (rw [Connection.step, phase]; exact .idle _)
  | reading =>
      cases step with
      | read chunk convert junk =>
          rw [Connection.step, phase]
          exact .read phase (handleRead_cases connection chunk convert junk)
      | readFails =>
          rw [Connection.step, phase]
          exact .ended _ rfl
      | call environment =>
          rw [Connection.step, phase]
          exact .idle _
      | write throws =>
          rw [Connection.step, phase]
          exact .idle _
  | serving handling =>
      cases step with
      | read chunk convert junk =>
          rw [Connection.step, phase]
          exact .idle _
      | readFails =>
          rw [Connection.step, phase]
          exact .idle _
      | call environment =>
          rw [Connection.step, phase]
          cases handling with
          | done res => exact .idle _
          | fail fault => exact .idle _
          | call op next => exact .called environment phase
      | write throws =>
          rw [Connection.step, phase]
          cases handling with
          | call op next => exact .idle _
          | fail fault => exact .ended _ (catchFault_broken connection fault)
          | done res =>
              cases throws with
              | false => exact .wrote phase
              | true => exact .ended _ rfl

/-- What is left to be computed for the request in the session's buffer, whatever the
conversions and the uninitialised variables of its handler are. -/
inductive Answering (connection : Connection) : Stepping Response -> Prop
  | rejected (handed : connection.handed = none) (read : createRequest connection.data = .ok none) :
      Answering connection (pure { result := .badRequest })
  | served (req : Request) (handler : RequestHandler) (convert : Text -> Except Fault Text)
      (junk : Nat -> CInt) {handling : Stepping Response} (handed : connection.handed = some req)
      (read : createRequest connection.data = .ok (some req))
      (built : (connection.dispatcher.getHandler req).1 = .ok handler)
      (leads : Pool.Leads (handler.handleRequest convert junk req {}).stepwise handling) :
      Answering connection handling

/-- A session that has not read has handed over nothing, and one that has read computes
or has written the answer to its own request. -/
structure Sound (connection : Connection) : Prop where
  unread : connection.phase = .accepting ∨ connection.phase = .reading -> connection.handed = none
  serving : forall handling, connection.phase = .serving handling -> connection.Answering handling
  written : forall res, connection.phase = .written res -> connection.Answering (.done res)

theorem Answering.resumed {connection : Connection} {op : FsStep} {next : op.Reply -> Stepping Response}
    (answering : connection.Answering (.call op next)) (answer : Except Fault op.Reply) :
    connection.Answering (Pool.resume next answer) := by
  cases answering with
  | served req handler convert junk handed read built leads =>
      exact .served req handler convert junk handed read built (leads.resumed answer)

theorem Answering.withPhase {connection : Connection} {handling : Stepping Response}
    (answering : connection.Answering handling) (phase : Phase) :
    Answering { connection with phase := phase } handling := by
  cases answering with
  | rejected handed read => exact .rejected handed read
  | served req handler convert junk handed read built leads =>
      exact .served req handler convert junk handed read built leads

theorem Sound.ofBroken {connection : Connection} (quiet : connection.phase.broken = true) :
    connection.Sound := by
  refine ⟨fun unread => ?_, fun handling serving => ?_, fun res written => ?_⟩
  · rcases unread with here | here <;> (rw [here] at quiet; cases quiet)
  · rw [serving] at quiet
    cases quiet
  · rw [written] at quiet
    cases quiet

theorem Sound.ofServing {connection : Connection} {handling : Stepping Response}
    (serving : connection.phase = .serving handling) (answering : connection.Answering handling) :
    connection.Sound := by
  refine ⟨fun unread => ?_, fun other serves => ?_, fun res written => ?_⟩
  · rcases unread with here | here <;> (rw [serving] at here; cases here)
  · rw [serving] at serves
    cases serves
    exact answering
  · rw [serving] at written
    cases written

theorem Sound.step {connection : Connection} (sound : connection.Sound) (disk : Disk) (step : Step) :
    (connection.step disk step).1.Sound := by
  generalize outcome : connection.step disk step = after
  have stepped := step_cases connection disk step
  rw [outcome] at stepped
  cases stepped with
  | idle step => exact sound
  | read reading handled =>
      have unread := sound.unread (Or.inr reading)
      cases handled with
      | broken quiet dispatcher => exact .ofBroken quiet
      | rejected read => exact .ofServing rfl (.rejected unread read)
      | served req handler read built =>
          exact .ofServing rfl (.served req handler _ _ rfl read built .start)
  | called environment serving =>
      exact .ofServing rfl (((sound.serving _ serving).resumed _).withPhase _)
  | wrote serving =>
      refine ⟨fun unread => ?_, fun handling serves => ?_, fun res written => ?_⟩
      · rcases unread with here | here <;> cases here
      · cases serves
      · cases written
        exact (sound.serving _ serving).withPhase _
  | ended step quiet => exact .ofBroken quiet

end Connection

/-! ## Runs -/

namespace Server

theorem run_cons (server : Server) (event : Event) (events : List Event) :
    server.run (event :: events) = (server.step event).run events := rfl

/-- Every session is sound, and the next one has not been started. -/
structure Sound (server : Server) : Prop where
  waiting : server.waiting.handed = none
  connections : forall connection, connection ∈ server.connections -> connection.Sound

theorem sound_init (dispatcher : Dispatcher) (data : Buffer) (disk : Disk) :
    (init dispatcher data disk).Sound :=
  ⟨rfl, fun _ member => nomatch member⟩

theorem Sound.step {server : Server} (sound : server.Sound) (event : Event) :
    (server.step event).Sound := by
  cases event with
  | accepted dispatcher data =>
      refine ⟨rfl, fun connection member => ?_⟩
      rcases List.mem_append.mp member with old | new
      · exact sound.connections connection old
      · rw [List.mem_singleton.mp new]
        refine ⟨fun _ => sound.waiting, fun handling serving => ?_, fun res written => ?_⟩
        · cases serving
        · cases written
  | refused dispatcher data => exact ⟨rfl, sound.connections⟩
  | session index step =>
      rw [Server.step]
      cases here : server.connections[index]? with
      | none => exact sound
      | some connection =>
          refine ⟨sound.waiting, fun other member => ?_⟩
          rcases List.mem_or_eq_of_mem_set member with old | new
          · exact sound.connections other old
          · rw [new]
            exact (sound.connections connection (List.mem_of_getElem? here)).step server.disk step

theorem Sound.run {server : Server} (sound : server.Sound) (events : List Event) :
    (server.run events).Sound := by
  induction events generalizing server with
  | nil => exact sound
  | cons event rest inductionHypothesis => exact inductionHypothesis (sound.step event)

/-- A table with one CRUD handler. -/
def sampleTable : Dispatcher :=
  ⟨SortedMap.empty.assign "/api".toList (some ⟨.crud, "/data".toList⟩), LocationInfo.empty⟩

/-- The handler's directory and a file next to it. -/
def sampleDisk : Disk :=
  (Disk.empty.place ["data".toList] .directory).place ["notes".toList] (.file "kept".toList)

def samplePut : Chunk :=
  ⟨"PUT /api/Shoes/1 HTTP/1.1\r\nContent-Length: 1\r\n\r\nx".toList, by decide, by decide⟩

/-- One session from its start to its response, with two turns in the storage. -/
def sampleEvents (chunk : Chunk) : List Event :=
  [.accepted sampleTable Buffer.blank, .session 0 (.read chunk .ok (fun _ => CInt.zero)),
    .session 0 (.call Environment.willing), .session 0 (.call Environment.willing),
    .session 0 (.write false)]

/-- The server after one session. -/
def sampleRun (chunk : Chunk) : Server :=
  (init sampleTable Buffer.blank sampleDisk).run (sampleEvents chunk)

end Server

end Serving
end Webserver
