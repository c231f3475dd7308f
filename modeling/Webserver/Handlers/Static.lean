import Webserver.Storage.FileSystem

namespace Webserver
namespace Handlers

open Http Programs Storage

/-!
# `FileRequestHandler` and the handlers without storage

The static handler opens its file with a stream of its own, so the path is the
plain concatenation of the configured root and the rest of the target.
-/

structure FileRequestHandler where
  baseDir : Text
  fileName : Text
deriving DecidableEq

namespace FileRequestHandler

/-- The content type chosen by the file name, if any. -/
def contentType (fileName : Text) : Option Text :=
  if (Strings.find ".htm".toList fileName).isSome then some "text/html".toList
  else if (Strings.find ".txt".toList fileName).isSome then some "text/txt".toList
  else if (Strings.find ".zip".toList fileName).isSome then some "application/zip".toList
  else if (Strings.find ".pdf".toList fileName).isSome then some "application/pdf".toList
  else if (Strings.find ".jpg".toList fileName).isSome then some "image/jpeg".toList
  else if (Strings.find ".png".toList fileName).isSome then some "image/png".toList
  else if (Strings.find ".gif".toList fileName).isSome then some "image/gif".toList
  else none

def serve (handler : FileRequestHandler) (_req : Request) (res : Response) :
    Handling Response := do
  let opened : Option Text <-
    Program.perform (FsCall.openInput (handler.baseDir ++ handler.fileName))
  if opened.isNone ∨ handler.fileName = [] then
    pure ({ res with
      result := .notFound
      version := 11
      contentType := some "text/plain".toList
      body := ".".toList ++ handler.baseDir ++ handler.fileName ++
        "\r\n\r\n".toList } : Response).preparePayload
  else
    let res := match contentType handler.fileName with
      | some kind => { res with contentType := some kind }
      | none => res
    pure ({ res with
      result := .ok
      version := 11
      body := getlines (opened.getD []) } : Response).preparePayload

/-! ## What is served -/

variable (handler : FileRequestHandler) (environments : Nat -> Environment)

/-- The handler answers 200, and the body is the given text. -/
def Serves (req : Request) (res : Response) (disk : Disk) (content : Text) : Prop :=
  Exists fun reply : Response =>
    FileSystem.run environments (handler.serve req res) disk = (.ok reply, disk) ∧
      reply.result = .ok ∧ reply.body = content

theorem run_openInput_bind {A : Type} (path : Text) (rest : Option Text -> Handling A)
    (disk : Disk) :
    FileSystem.run environments (Program.perform (FsCall.openInput path) >>= rest) disk =
      FileSystem.run (fun index => environments (index + 1)) (rest (disk.openInput path)) disk :=
  rfl

/-- A file that opens is answered with 200 and its lines, each with a newline. -/
theorem run_serve_of_opens (named : handler.fileName ≠ []) (req : Request) (res : Response)
    {disk : Disk} {content : Text}
    (opens : disk.openInput (handler.baseDir ++ handler.fileName) = some content) :
    Exists fun reply : Response =>
      FileSystem.run environments (handler.serve req res) disk = (.ok reply, disk) ∧
        reply.result = .ok ∧ reply.body = getlines content := by
  have found : ¬((some content).isNone = true ∨ handler.fileName = []) := by simp [named]
  rw [serve, run_openInput_bind, opens, if_neg found]
  exact ⟨_, rfl, rfl, rfl⟩

/-- A file is served byte for byte exactly when it is empty or ends in a newline. -/
theorem serves_iff (named : handler.fileName ≠ []) (req : Request) (res : Response) {disk : Disk}
    {content : Text} (opens : disk.openInput (handler.baseDir ++ handler.fileName) = some content) :
    handler.Serves environments req res disk content <-> Strings.Terminated '\n' content := by
  rcases run_serve_of_opens handler environments named req res opens with
    ⟨reply, answered, status, lines⟩
  rw [← getlines_eq_self_iff]
  constructor
  · rintro ⟨other, again, _, same⟩
    rw [answered, Prod.mk.injEq, Except.ok.injEq] at again
    rw [← lines, again.1, same]
  · intro same
    exact ⟨reply, answered, status, lines.trans same⟩

/-- A disk with one file. -/
def sampleDisk (content : Text) : Disk := Disk.empty.place ["a.zip".toList] (.file content)

/-- The handler behind a location with the root directory as its root. -/
def sampleHandler : FileRequestHandler := ⟨"/".toList, "a.zip".toList⟩

theorem zip_isServed :
    sampleHandler.Serves (fun _ => Environment.willing) ⟨.get, "/a.zip".toList, []⟩ {}
      (sampleDisk "PK\n".toList) "PK\n".toList :=
  (serves_iff sampleHandler (fun _ => Environment.willing) (by decide)
    ⟨.get, "/a.zip".toList, []⟩ {} (by decide)).mpr (by decide)

/-- A file without a final newline is served with one byte more. -/
theorem zip_isLengthened :
    (sampleDisk "PK".toList).openInput "/a.zip".toList = some "PK".toList ∧
      ¬ sampleHandler.Serves (fun _ => Environment.willing) ⟨.get, "/a.zip".toList, []⟩ {}
        (sampleDisk "PK".toList) "PK".toList := by
  have opens : (sampleDisk "PK".toList).openInput "/a.zip".toList = some "PK".toList := by decide
  refine ⟨opens, ?_⟩
  rintro ⟨reply, answered, _, body⟩
  rcases run_serve_of_opens sampleHandler (fun _ => Environment.willing) (by decide)
    ⟨.get, "/a.zip".toList, []⟩ {} opens with ⟨other, again, _, lines⟩
  rw [answered, Prod.mk.injEq, Except.ok.injEq] at again
  rw [← again.1, body] at lines
  exact absurd lines (by decide)

end FileRequestHandler

/-- `EchoRequestHandler::serve`. -/
def echoServe (req : Request) (res : Response) : Handling Response :=
  pure ({ res with
    result := .ok
    version := 11
    contentType := some "text/plain".toList
    body := req.body } : Response).preparePayload

/-- `ErrorRequestHandler::serve`. -/
def errorServe (req : Request) (res : Response) : Handling Response :=
  pure ({ res with
    result := .notFound
    version := 11
    contentType := some "text/plain".toList
    body := req.body } : Response).preparePayload

/-- `HealthRequestHandler::serve`, which leaves the status it is given. -/
def healthServe (_req : Request) (res : Response) : Handling Response :=
  pure ({ res with
    version := 11
    contentType := some "text/plain".toList
    body := "OK".toList } : Response).preparePayload

/-- `SleepRequestHandler::serve`, after the ten seconds have passed. -/
def sleepServe (_req : Request) (res : Response) : Handling Response :=
  pure ({ res with result := .ok, version := 11, body := [] } : Response).preparePayload

end Handlers
end Webserver
