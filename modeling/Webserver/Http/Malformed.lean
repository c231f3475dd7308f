import Webserver.Http.Session

namespace Webserver
namespace Http

/-!
# Malformed requests

`parse_req_str` does not return after a failed search, and one of its positions is
computed from it all the same: behind a missing end of the header section the body is
cut out at position 3.  A text that has no third character makes it throw, and the
session then answers nothing.
-/

/-- Something that a request has to have is missing. -/
def Malformed (text : Text) : Prop :=
  ¬ RequestParser.headerEnd <:+: text ∨ ' ' ∉ text ∨ '/' ∉ text ∨
    forall method, method ∈ RequestParser.methodNames ->
      ¬ method.1 <:+: (text.takeWhile (fun c => c != ' ')).map Char.toLower

/-- The text is parsed without an exception, and a malformed one is reported: a session
with this text in its buffer answers it with 400. -/
def IsReported (text : Text) : Prop :=
  (Exists fun info : RequestInfo => parseReqStr text = .ok info ∧
    (Malformed text -> info.parseResult = false)) ∧
  forall (session : Session) (respond : Request -> Except Fault Response),
    Malformed text -> session.data.text = .ok text ->
      (session.handleRead respond false).written =
        session.written ++ [{ result := .badRequest }]

theorem malformed_iff (text : Text) : Malformed text <-> ¬ Requestlike text := by
  rw [Malformed, Requestlike]
  simp only [not_and_or, not_exists, imp_iff_not_or]

/-- A text is parsed and, if malformed, reported exactly when it has three characters. -/
theorem isReported_iff (text : Text) : IsReported text <-> 3 ≤ text.length := by
  constructor
  · rintro ⟨⟨info, parsed, _⟩, _⟩
    by_contra short
    have thrown := (parseReqStr_eq_error_iff text .outOfRange).mpr ⟨by omega, rfl⟩
    rw [parsed] at thrown
    cases thrown
  · intro long
    have known : Exists fun info : RequestInfo => parseReqStr text = .ok info := by
      cases outcome : parseReqStr text with
      | ok info => exact ⟨info, rfl⟩
      | error fault =>
          have short := ((parseReqStr_eq_error_iff text fault).mp outcome).1
          omega
    rcases known with ⟨info, parsed⟩
    have reported : Malformed text -> info.parseResult = false := by
      intro malformed
      rw [← Bool.not_eq_true, parseResult_eq_true_iff parsed]
      exact (malformed_iff text).mp malformed
    refine ⟨⟨info, parsed, reported⟩, fun session respond malformed buffered => ?_⟩
    have refused : createRequest session.data = .ok none := by
      rw [createRequest, buffered]
      change requestOf text = _
      rw [requestOf, parsed]
      simp [reported malformed, bind, Except.bind, pure, Except.pure]
    rw [Session.handleRead, if_neg (by decide), refused]

/-- A client that sends a single NUL: the text is empty, nothing is written and the session
only notes an error. -/
theorem emptyText_isNotReported :
    Malformed [] ∧ parseReqStr [] = .error .outOfRange ∧
      ((Session.run (fun _ => .ok {}) Buffer.blank
        [.received ⟨['\x00'], by decide, by decide⟩]).written = [] ∧
      (Session.run (fun _ => .ok {}) Buffer.blank
        [.received ⟨['\x00'], by decide, by decide⟩]).errorStatus = -1) ∧
      ¬ IsReported [] := by
  have thrown : parseReqStr [] = .error .outOfRange := by decide
  refine ⟨?_, thrown, ⟨rfl, rfl⟩, ?_⟩
  · rw [malformed_iff]
    exact fun like => absurd like.2.1 List.not_mem_nil
  · rintro ⟨⟨info, parsed, _⟩, _⟩
    rw [thrown] at parsed
    cases parsed

end Http
end Webserver
