import Webserver.Http.Session
import Webserver.Library.Interleavings
import Webserver.Routing.Dispatcher
import Webserver.Storage.Steps

namespace Webserver
namespace Serving

open Handlers Http Programs Routing Storage

/-!
# `server` and its sessions

The threads of `server::run` take the completions of asynchronous operations from one
`io_service`.  Accepting a connection starts its session, which reads once, and sets up
the next session to be accepted.  A completed read is handled by one thread to its end:
request, handler, response.  What the threads do to the storage is an interleaving of the
steps of all sessions that are being served.

The threads also share what the converter keeps for the whole process: two sets of tag
names, which are filled without a lock when the first of them is found empty.  What a
conversion finds there may be the work of another session in between, so every read comes
with the outcomes of its own conversions, and with its own uninitialised values.  The log,
to which all sessions write, is left out.  A failed assertion ends the process, and what comes
after undefined behaviour nobody knows; what is said of a run is then said of the run up to
there.

Every session has a dispatcher of its own, built from the configuration file when the
session is set up.  The buffer that it reads into is not initialised.  As in the handlers'
`serve`, a NUL stands behind every target.
-/

/-- Where a session stands. -/
inductive Phase where
  /-- `async_accept` is pending. -/
  | accepting
  /-- `async_read_some` is pending. -/
  | reading
  /-- What is left of the handler's computation. -/
  | serving (handling : Stepping Response)
  | written (res : Response)
  /-- An exception has been caught, and `error_status` is -1. -/
  | caught
  /-- No exception: a failed assertion, undefined behaviour, or no end at all. -/
  | stopped (fault : Fault)
  /-- `delete this`. -/
  | deleted

structure Connection where
  dispatcher : Dispatcher
  data : Buffer
  /-- The request handed to `get_handler`. -/
  handed : Option Request
  phase : Phase

namespace Connection

/-- A session that has been set up. -/
def fresh (dispatcher : Dispatcher) (data : Buffer) : Connection := ⟨dispatcher, data, none, .accepting⟩

/-- `start`; the `error_status` of a session that has not been read from is 0. -/
def start (connection : Connection) : Connection := { connection with phase := .reading }

/-- The `catch` clause of `handle_read`. -/
def catchFault (connection : Connection) (fault : Fault) : Connection :=
  { connection with phase := if fault.isException = true then .caught else .stopped fault }

/-- `handle_read` up to the handler's computation. -/
def handleRead (convert : Text -> Except Fault Text) (junk : Nat -> CInt) (connection : Connection)
    (chunk : Chunk) : Connection :=
  let connection := { connection with data := connection.data.receive chunk }
  match createRequest connection.data with
  | .error fault => connection.catchFault fault
  | .ok none => { connection with phase := .serving (pure { result := .badRequest }) }
  | .ok (some req) =>
      let (built, dispatcher) := connection.dispatcher.getHandler req
      let connection := { connection with dispatcher := dispatcher, handed := some req }
      match built with
      | .error fault => connection.catchFault fault
      | .ok handler =>
          { connection with
            phase := .serving (handler.handleRequest convert junk req {}).stepwise }

/-- What can happen to a session. -/
inductive Step where
  /-- A read is completed.  `convert` and `junk` are what its handler will find. -/
  | read (chunk : Chunk) (convert : Text -> Except Fault Text) (junk : Nat -> CInt)
  | readFails
  /-- The handler takes a step in the storage. -/
  | call (environment : Environment)
  /-- The handler has ended, and `http::write` returns or throws. -/
  | write (throws : Bool)

def step (connection : Connection) (disk : Disk) : Step -> Connection × Disk
  | .read chunk convert junk =>
      match connection.phase with
      | .reading => (connection.handleRead convert junk chunk, disk)
      | _ => (connection, disk)
  | .readFails =>
      match connection.phase with
      | .reading => ({ connection with phase := .deleted }, disk)
      | _ => (connection, disk)
  | .call environment =>
      match connection.phase with
      | .serving (.call op next) =>
          let (answer, disk) := op.exec environment disk
          ({ connection with phase := .serving (Pool.resume next answer) }, disk)
      | _ => (connection, disk)
  | .write throws =>
      match connection.phase with
      | .serving (.done res) =>
          ({ connection with phase := if throws = true then .caught else .written res }, disk)
      | .serving (.fail fault) => (connection.catchFault fault, disk)
      | _ => (connection, disk)

end Connection

structure Server where
  /-- The session for the next connection. -/
  waiting : Connection
  connections : List Connection
  errorStatus : Int
  disk : Disk

/-- `accepted` and `refused` are the two ways of `handle_accept`.  They come with what the
session that is set up next finds: its dispatcher and the memory of its buffer. -/
inductive Event where
  | accepted (dispatcher : Dispatcher) (data : Buffer)
  | refused (dispatcher : Dispatcher) (data : Buffer)
  | session (index : Nat) (step : Connection.Step)

namespace Server

/-- The constructor: `start_accept` with a first session. -/
def init (dispatcher : Dispatcher) (data : Buffer) (disk : Disk) : Server :=
  ⟨.fresh dispatcher data, [], 0, disk⟩

def step (server : Server) : Event -> Server
  | .accepted dispatcher data =>
      { server with
        waiting := .fresh dispatcher data
        connections := server.connections ++ [server.waiting.start] }
  | .refused dispatcher data =>
      { server with waiting := .fresh dispatcher data, errorStatus := -1 }
  | .session index step =>
      match server.connections[index]? with
      | none => server
      | some connection =>
          let (connection, disk) := connection.step server.disk step
          { server with connections := server.connections.set index connection, disk := disk }

def run (server : Server) (events : List Event) : Server := events.foldl step server

end Server
end Serving
end Webserver
