import Webserver.Http.RequestParser

namespace Webserver
namespace Http

/-!
# `session`

A session owns a buffer of 1024 bytes, which is not cleared.  `start` issues one
read.  Its completion stores the received bytes at the front of the buffer and
calls `handle_read`, which takes the buffer for a C string: whatever an earlier
read has left behind the received bytes belongs to the request, up to the first
NUL.  The response is written synchronously, so that `handle_write`, the only
place that would issue another read, is never reached.

`respond` stands for `get_handler` followed by `handle_request`.
-/

def maxLength : Nat := 1024

/-- `char data_[max_length]`. -/
structure Buffer where
  bytes : Text
  size : bytes.length = maxLength
deriving DecidableEq

/-- The bytes of one completed read. -/
structure Chunk where
  bytes : Text
  nonempty : bytes ≠ []
  fits : bytes.length ≤ maxLength

namespace Buffer

/-- A read overwrites the front of the buffer and nothing else. -/
def receive (buffer : Buffer) (chunk : Chunk) : Buffer :=
  ⟨chunk.bytes ++ buffer.bytes.drop chunk.bytes.length, by
    have fits := chunk.fits
    rw [List.length_append, List.length_drop, buffer.size]
    omega⟩

/-- `std::string(data_)`, which runs out of the buffer when that holds no NUL. -/
def text (buffer : Buffer) : Except Fault Text :=
  if '\x00' ∈ buffer.bytes then .ok (cString buffer.bytes) else .error .undefinedBehavior

end Buffer

/-- What `create_request` does with the characters of the C string. -/
def requestOf (dataStr : Text) : Except Fault (Option Request) := do
  let info <- parseReqStr dataStr
  pure (if info.parseResult = true then some ⟨info.verb, info.query, info.body⟩ else none)

/-- `create_request`; `none` where it returns `false`. -/
def createRequest (buffer : Buffer) : Except Fault (Option Request) := do
  let dataStr <- buffer.text
  requestOf dataStr

structure Session where
  data : Buffer
  errorStatus : Int := 0
  /-- A read has been issued and has not completed. -/
  reading : Bool := false
  /-- `delete this` has been executed. -/
  deleted : Bool := false
  /-- A step without meaning has been reached. -/
  undefined : Bool := false
  /-- The requests handed to `get_handler` so far. -/
  handed : List Request := []
  /-- The responses written so far. -/
  written : List Response := []

namespace Session

def start (session : Session) : Session :=
  if session.errorStatus > -1 then { session with reading := true } else session

/-- The `catch` clause of `handle_read`. -/
def catchFault (session : Session) : Fault -> Session
  | .undefinedBehavior => { session with undefined := true }
  | _ => { session with errorStatus := -1 }

def handleRead (respond : Request -> Except Fault Response) (error : Bool) (session : Session) :
    Session :=
  if error = true then { session with deleted := true }
  else
    match createRequest session.data with
    | .error fault => session.catchFault fault
    | .ok none => { session with written := session.written ++ [{ result := .badRequest }] }
    | .ok (some req) =>
        let session := { session with handed := session.handed ++ [req] }
        match respond req with
        | .error fault => session.catchFault fault
        | .ok res => { session with written := session.written ++ [res] }

/-- How a read completes: with bytes, or with an error. -/
inductive Completion where
  | received (chunk : Chunk)
  | failed

/-- Without an outstanding read the transport keeps what arrives. -/
def complete (respond : Request -> Except Fault Response) (session : Session) :
    Completion -> Session
  | .received chunk =>
      if session.reading = true then
        { session with
          data := session.data.receive chunk
          reading := false }.handleRead respond false
      else session
  | .failed =>
      if session.reading = true then
        { session with reading := false }.handleRead respond true
      else session

/-- A session from its start through everything that the transport offers. -/
def run (respond : Request -> Except Fault Response) (data : Buffer)
    (completions : List Completion) : Session :=
  completions.foldl (complete respond) (start { data := data })

/-! ## One read -/

variable (respond : Request -> Except Fault Response)

@[simp] theorem catchFault_reading (session : Session) (fault : Fault) :
    (session.catchFault fault).reading = session.reading := by
  cases fault <;> rfl

@[simp] theorem catchFault_handed (session : Session) (fault : Fault) :
    (session.catchFault fault).handed = session.handed := by
  cases fault <;> rfl

/-- `handle_read` issues no read. -/
theorem handleRead_reading (error : Bool) (session : Session) :
    (session.handleRead respond error).reading = session.reading := by
  unfold handleRead
  split
  · rfl
  · split
    · exact catchFault_reading _ _
    · rfl
    · simp only
      split
      · exact catchFault_reading _ _
      · rfl

theorem handleRead_handed (session : Session) :
    (session.handleRead respond false).handed = session.handed ++
      match createRequest session.data with
      | .ok (some req) => [req]
      | _ => [] := by
  rw [handleRead, if_neg (by decide)]
  rcases createRequest session.data with fault | (_ | req)
  · simp
  · simp
  · simp only
    cases respond req with
    | error fault => exact catchFault_handed _ _
    | ok res => rfl

/-- A session without an outstanding read does nothing more. -/
theorem foldl_complete_idle {session : Session} (idle : session.reading = false)
    (completions : List Completion) : completions.foldl (complete respond) session = session := by
  induction completions with
  | nil => rfl
  | cons completion rest inductionHypothesis =>
      have same : session.complete respond completion = session := by
        cases completion <;> simp [complete, idle]
      rw [List.foldl_cons, same]
      exact inductionHypothesis

/-- Only the first read is ever looked at. -/
theorem run_handed (data : Buffer) (chunk : Chunk) (later : List Completion) :
    (run respond data (.received chunk :: later)).handed =
      match createRequest (data.receive chunk) with
      | .ok (some req) => [req]
      | _ => [] := by
  have issued : (0 : Int) > -1 := by decide
  rw [run, List.foldl_cons, start, if_pos issued, complete, if_pos rfl,
    foldl_complete_idle respond (handleRead_reading respond _ _), handleRead_handed]
  rfl

end Session

/-! ## A request that arrives whole -/

/-- A request as a client sends it. -/
structure WireRequest where
  method : Verb
  target : Text
  headers : List Text
  body : Text

namespace WireRequest

def text (wire : WireRequest) : Text :=
  wireText wire.method.methodString wire.target wire.headers wire.body

/-- One of the four methods, a target in origin form, header lines that include
the length of the body, and no NUL anywhere. -/
structure WellFormed (wire : WireRequest) : Prop where
  method : (wire.method.methodString.map Char.toLower, wire.method) ∈ RequestParser.methodNames
  origin : wire.target.head? = some '/'
  oneWord : ' ' ∉ wire.target ∧ '\r' ∉ wire.target ∧ '\n' ∉ wire.target
  headers : forall header, header ∈ wire.headers -> IsLine header
  contentLength : "Content-Length: ".toList ++ Nat.toDigits 10 wire.body.length ∈ wire.headers
  noNul : '\x00' ∉ wire.text

theorem requestOf_text {wire : WireRequest} (wellFormed : wire.WellFormed) :
    requestOf wire.text = .ok (some ⟨wire.method, wire.target, wire.body⟩) := by
  rw [requestOf, text, parseReqStr_wireText wellFormed.method wellFormed.origin wellFormed.oneWord
    wellFormed.headers]
  rfl

end WireRequest

/-- The characters of the buffer after a read without NUL: the received bytes
and what an earlier read has left behind them. -/
theorem text_receive {buffer : Buffer} {chunk : Chunk} (noNul : '\x00' ∉ chunk.bytes)
    (stale : '\x00' ∈ buffer.bytes.drop chunk.bytes.length) :
    (buffer.receive chunk).text =
      .ok (chunk.bytes ++ cString (buffer.bytes.drop chunk.bytes.length)) := by
  rw [Buffer.text, Buffer.receive, if_pos (List.mem_append_right _ stale),
    cString_append_of_notMem noNul]

theorem cString_of_head {bytes : Text} (terminated : bytes.head? = some '\x00') :
    cString bytes = [] := by
  rcases List.head?_eq_some_iff.mp terminated with ⟨rest, rfl⟩
  rfl

/-- What a session hands to the dispatcher depends on its first read alone.  A
well-formed request that arrives whole in that read, with a NUL behind it in
the buffer, is handed over with its complete target and body. -/
theorem first_read_decides (respond : Request -> Except Fault Response) (data : Buffer)
    (chunk : Chunk) (later : List Session.Completion) :
    ((Session.run respond data (.received chunk :: later)).handed =
      match createRequest (data.receive chunk) with
      | .ok (some req) => [req]
      | _ => []) ∧
    (forall wire : WireRequest, wire.WellFormed -> chunk.bytes = wire.text ->
      (data.bytes.drop chunk.bytes.length).head? = some '\x00' ->
      (Session.run respond data (.received chunk :: later)).handed =
        [⟨wire.method, wire.target, wire.body⟩]) := by
  refine ⟨Session.run_handed respond data chunk later, ?_⟩
  intro wire wellFormed whole terminated
  have stale : '\x00' ∈ data.bytes.drop chunk.bytes.length := List.mem_of_head? terminated
  have noNul : '\x00' ∉ chunk.bytes := whole ▸ wellFormed.noNul
  have created : createRequest (data.receive chunk) =
      .ok (some ⟨wire.method, wire.target, wire.body⟩) := by
    rw [createRequest, text_receive noNul stale, cString_of_head terminated, List.append_nil, whole]
    exact WireRequest.requestOf_text wellFormed
  rw [Session.run_handed, created]

/-- A buffer that holds only NUL. -/
def Buffer.blank : Buffer := ⟨List.replicate maxLength '\x00', List.length_replicate⟩

/-- A request with a body of five bytes. -/
def sampleWire : WireRequest :=
  ⟨.post, "/a".toList, ["Content-Length: 5".toList], "hello".toList⟩

theorem sampleWire_handed :
    (Session.run (fun _ => .ok {}) Buffer.blank
      [.received ⟨sampleWire.text, by decide, by decide⟩]).handed =
        [⟨.post, "/a".toList, "hello".toList⟩] :=
  (first_read_decides (fun _ => .ok {}) Buffer.blank
    ⟨sampleWire.text, by decide, by decide⟩ []).2 sampleWire
    ⟨by decide, by decide, by decide, by decide, by decide, by decide⟩ rfl rfl

/-- The same bytes in two reads: the request is handed over without its body. -/
theorem sampleWire_split :
    let first : Chunk := ⟨"POST /a HTTP/1.1\r\nContent-Length: 5\r\n\r\n".toList, by decide, by decide⟩
    let second : Chunk := ⟨"hello".toList, by decide, by decide⟩
    sampleWire.WellFormed ∧ first.bytes ++ second.bytes = sampleWire.text ∧
    (Session.run (fun _ => .ok {}) Buffer.blank [.received first, .received second]).handed =
      [⟨.post, "/a".toList, []⟩] :=
  ⟨⟨by decide, by decide, by decide, by decide, by decide, by decide⟩, rfl, rfl⟩

end Http
end Webserver
