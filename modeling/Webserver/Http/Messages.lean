import Webserver.Library.Strings
import Webserver.Library.Decimals

namespace Webserver

/-!
# Requests, responses and the ways a computation can fail

A C++ `char` is a `Char` whose code is the byte; a `std::string` is a list of
them.  Nothing in the program looks at a character beyond comparing it, so no
statement depends on the codes above 255, which no byte has.

A function that cannot finish normally ends with a `Fault`.  Three of the faults
are exceptions: `session::handle_read` catches them and sends no response.
`undefinedBehavior` marks a step to which C++ gives no meaning, such as
indexing an empty string; what a real execution does from there on is unknown,
and the model stops.  It stops too where an assertion ends the process and
where a loop has no end.
-/

abbrev Text := List Char

inductive Fault where
  /-- `std::out_of_range`, thrown by `substr` and `stoi`. -/
  | outOfRange
  /-- `boost::filesystem::filesystem_error`. -/
  | filesystemError
  /-- `boost::bad_lexical_cast`. -/
  | badLexicalCast
  | assertionFailed
  | undefinedBehavior
  /-- A loop has used up the rounds it was given. -/
  | unfinished
deriving DecidableEq

/-- The faults that are thrown, and caught in `session::handle_read`. -/
def Fault.isException : Fault -> Bool
  | outOfRange => true
  | filesystemError => true
  | badLexicalCast => true
  | assertionFailed => false
  | undefinedBehavior => false
  | unfinished => false

/-- The computation ends with an exception. -/
def throws {A : Type} : Except Fault A -> Bool
  | .ok _ => false
  | .error fault => fault.isException

@[simp] theorem throws_error {A : Type} (fault : Fault) :
    throws (.error fault : Except Fault A) = fault.isException := rfl

/-- The characters before the first NUL, as a C string is read. -/
def cString (bytes : Text) : Text := bytes.takeWhile (fun c => c != '\x00')

theorem cString_append_of_notMem {before : Text} (absent : '\x00' ∉ before) (after : Text) :
    cString (before ++ after) = before ++ cString after := by
  apply List.takeWhile_append_of_pos
  intro c member
  have different : c ≠ '\x00' := fun same => absent (same ▸ member)
  simpa using different

theorem cString_nul (rest : Text) : cString ('\x00' :: rest) = [] := rfl

theorem cString_of_notMem {bytes : Text} (absent : '\x00' ∉ bytes) : cString bytes = bytes := by
  have whole := cString_append_of_notMem absent []
  rwa [List.append_nil, show cString [] = [] from rfl, List.append_nil] at whole

theorem cString_append_of_mem {bytes : Text} (nul : '\x00' ∈ bytes) (more : Text) :
    cString (bytes ++ more) = cString bytes := by
  rcases List.eq_append_cons_of_mem nul with ⟨before, after, rfl, avoids⟩
  rw [List.append_assoc, List.cons_append, cString_append_of_notMem avoids,
    cString_append_of_notMem avoids, cString_nul, cString_nul]

namespace Http

/-- The methods that the program distinguishes; `other` carries any other name. -/
inductive Verb where
  | get
  | post
  | put
  | delete_
  | other (name : Text)
deriving DecidableEq

/-- `http::verb::unknown`. -/
def Verb.unknown : Verb := .other []

/-- `req.method_string()`. -/
def Verb.methodString : Verb -> Text
  | .get => "GET".toList
  | .post => "POST".toList
  | .put => "PUT".toList
  | .delete_ => "DELETE".toList
  | .other name => name

inductive Status where
  | ok
  | created
  | badRequest
  | notFound
  | internalServerError
  | notImplemented
deriving DecidableEq

/-- The parts of `http::request<http::string_body>` that the program reads. -/
structure Request where
  method : Verb
  target : Text
  body : Text
deriving DecidableEq

/-- `http::response<http::string_body>`, starting out as the library
initialises it. -/
structure Response where
  result : Status := .ok
  version : Nat := 11
  contentType : Option Text := none
  contentLength : Option Nat := none
  body : Text := []
deriving DecidableEq

/-- `res.prepare_payload()` records the length of the body. -/
def Response.preparePayload (res : Response) : Response :=
  { res with contentLength := some res.body.length }

end Http
end Webserver
