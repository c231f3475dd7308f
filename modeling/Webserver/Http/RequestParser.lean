import Webserver.Http.Messages

namespace Webserver
namespace Http

/-!
# `parse_req_str`

The parser works on the C string that it is given and looks for four things
independently of each other: the end of the header section, the first word, a
method name anywhere inside that word, and a `/` with a space somewhere behind
it.  `parse_result` says whether all four were found.

One search is not guarded: the body is cut out at `end_pos + 4` even when the
search has failed.  The sum wraps around to 3, so that a text shorter than that
makes `substr` throw.
-/

/-- What the parser returns. -/
structure RequestInfo where
  verb : Verb := .unknown
  query : Text := []
  body : Text := []
  parseResult : Bool := true
deriving DecidableEq

namespace RequestParser

def headerEnd : Text := "\r\n\r\n".toList

/-- The first word in lower case; empty when there is no space. -/
def verbStr (dataStr : Text) : Text :=
  match Strings.find [' '] dataStr with
  | some endPos => (dataStr.take endPos).map Char.toLower
  | none => []

/-- The method names in the order in which the parser tries them. -/
def methodNames : List (Text × Verb) :=
  [("get".toList, .get), ("post".toList, .post), ("delete".toList, .delete_), ("put".toList, .put)]

/-- The verb of the first method name that occurs in the word. -/
def findVerb (verbStr : Text) : Option Verb :=
  (methodNames.find? (fun method => (Strings.find method.1 verbStr).isSome)).map Prod.snd

/-- The text from the first `/` up to the next space. -/
def findQuery (dataStr : Text) : Option Text :=
  match Strings.find ['/'] dataStr with
  | none => none
  | some beginPos =>
      match Strings.findFrom [' '] dataStr beginPos with
      | none => some []
      | some endPos => some ((dataStr.drop beginPos).take (endPos - beginPos))

end RequestParser

open RequestParser

/-- `parse_req_str` on the characters of its C string. -/
def parseReqStr (dataStr : Text) : Except Fault RequestInfo :=
  let endPos := Strings.find headerEnd dataStr
  match Strings.substr dataStr (Strings.afterFind endPos 4) with
  | none => .error .outOfRange
  | some body =>
      let verb := findVerb (verbStr dataStr)
      let query := findQuery dataStr
      .ok {
        verb := verb.getD .unknown
        query := query.getD []
        body := body
        parseResult := endPos.isSome && (Strings.find [' '] dataStr).isSome && verb.isSome &&
          query.isSome }

/-- What has to occur in a text that is taken for a request. -/
def Requestlike (text : Text) : Prop :=
  headerEnd <:+: text ∧ ' ' ∈ text ∧ '/' ∈ text ∧
    Exists fun method : Text × Verb => method ∈ methodNames ∧
      method.1 <:+: (text.takeWhile (fun c => c != ' ')).map Char.toLower

namespace RequestParser

theorem findVerb_isSome_iff (word : Text) :
    (findVerb word).isSome ↔
      Exists fun method : Text × Verb => method ∈ methodNames ∧ method.1 <:+: word := by
  simp only [findVerb, Option.isSome_map, List.find?_isSome, Strings.find_isSome_iff]

theorem findQuery_isSome_iff (dataStr : Text) : (findQuery dataStr).isSome ↔ '/' ∈ dataStr := by
  unfold findQuery
  cases found : Strings.find ['/'] dataStr with
  | none => simpa using (Strings.find_singleton_eq_none_iff '/' dataStr).mp found
  | some beginPos =>
      have member : '/' ∈ dataStr := by
        by_contra absent
        rw [(Strings.find_singleton_eq_none_iff '/' dataStr).mpr absent] at found
        cases found
      simp only [member, iff_true]
      cases Strings.findFrom [' '] dataStr beginPos <;> rfl

/-- Before the first space, `verbStr` is the first word in lower case. -/
theorem verbStr_of_mem {dataStr : Text} (spaced : ' ' ∈ dataStr) :
    verbStr dataStr = (dataStr.takeWhile (fun c => c != ' ')).map Char.toLower := by
  unfold verbStr
  cases found : Strings.find [' '] dataStr with
  | none => exact absurd spaced ((Strings.find_singleton_eq_none_iff ' ' dataStr).mp found)
  | some endPos =>
      simp only
      rw [Strings.take_of_find found]

end RequestParser

/-- The parser throws exactly on texts shorter than three characters. -/
theorem parseReqStr_eq_error_iff (dataStr : Text) (fault : Fault) :
    parseReqStr dataStr = .error fault ↔ dataStr.length < 3 ∧ fault = .outOfRange := by
  have cutShort : dataStr.length < 3 ↔
      Strings.substr dataStr (Strings.afterFind (Strings.find headerEnd dataStr) 4) = none := by
    rw [Strings.substr_eq_none_iff]
    cases found : Strings.find headerEnd dataStr with
    | none => exact Iff.rfl
    | some endPos =>
        have fits := ((Strings.find_eq_some_iff _ _ _).mp found).2.1.length_le
        have four : headerEnd.length = 4 := rfl
        rw [List.length_drop, four] at fits
        rw [Strings.afterFind]
        omega
  rw [cutShort, parseReqStr]
  cases Strings.substr dataStr (Strings.afterFind (Strings.find headerEnd dataStr) 4) with
  | none =>
      constructor
      · intro same
        exact ⟨rfl, (Except.error.inj same).symm⟩
      · rintro ⟨_, rfl⟩
        rfl
  | some body =>
      constructor
      · intro impossible
        cases impossible
      · rintro ⟨impossible, _⟩
        cases impossible

/-- A text is accepted exactly when it looks like a request. -/
theorem parseResult_eq_true_iff {dataStr : Text} {info : RequestInfo}
    (parsed : parseReqStr dataStr = .ok info) :
    info.parseResult = true ↔ Requestlike dataStr := by
  unfold parseReqStr at parsed
  simp only at parsed
  split at parsed
  · cases parsed
  · rename_i body cut
    rw [← Except.ok.inj parsed]
    simp only [Bool.and_eq_true, Strings.find_isSome_iff, findVerb_isSome_iff,
      findQuery_isSome_iff, List.singleton_infix_iff, Requestlike]
    constructor
    · rintro ⟨⟨⟨ended, spaced⟩, named⟩, slash⟩
      rw [verbStr_of_mem spaced] at named
      exact ⟨ended, spaced, slash, named⟩
    · rintro ⟨ended, spaced, slash, named⟩
      rw [← verbStr_of_mem spaced] at named
      exact ⟨⟨⟨ended, spaced⟩, named⟩, slash⟩

/-- The body of an accepted text is what follows its header section. -/
theorem body_of_parsed {dataStr : Text} {info : RequestInfo}
    (parsed : parseReqStr dataStr = .ok info) {endPos : Nat}
    (ended : Strings.find headerEnd dataStr = some endPos) :
    info.body = dataStr.drop (endPos + 4) := by
  rw [parseReqStr, ended] at parsed
  cases cut : Strings.substr dataStr (Strings.afterFind (some endPos) 4) with
  | none =>
      rw [cut] at parsed
      cases parsed
  | some body =>
      rw [cut] at parsed
      rw [← Except.ok.inj parsed]
      exact ((Strings.substr_eq_some_iff _ _ _).mp cut).2.symm

/-! ## Well-formed requests -/

def crlf : Text := "\r\n".toList

/-- A request on the wire: the request line, the header lines, an empty line and
the body. -/
def wireText (method target : Text) (headers : List Text) (body : Text) : Text :=
  method ++ ' ' :: target ++ " HTTP/1.1".toList ++ crlf ++
    headers.flatMap (fun header => header ++ crlf) ++ crlf ++ body

/-- Nonempty and without line ends. -/
def IsLine (line : Text) : Prop := line ≠ [] ∧ '\r' ∉ line ∧ '\n' ∉ line

instance (line : Text) : Decidable (IsLine line) := inferInstanceAs (Decidable (_ ∧ _))

theorem find_headerEnd_skip (before : Text) (avoids : '\r' ∉ before) (after : Text) :
    Strings.find headerEnd (before ++ after) =
      (Strings.find headerEnd after).map (fun offset => before.length + offset) :=
  Strings.find_skip ['\n', '\r', '\n'] avoids after

/-- An end of line that another character follows is not the end of the header
section. -/
theorem find_headerEnd_crlf {c : Char} (different : c ≠ '\r') (rest : Text) :
    Strings.find headerEnd (crlf ++ c :: rest) =
      (Strings.find headerEnd (c :: rest)).map (fun offset => 2 + offset) := by
  have notFirst : ¬ headerEnd <+: '\r' :: '\n' :: c :: rest := by
    intro occurs
    have third := (List.cons_prefix_cons.mp (List.cons_prefix_cons.mp
      (List.cons_prefix_cons.mp occurs).2).2).1
    exact different third.symm
  have step : Strings.find headerEnd ('\r' :: '\n' :: c :: rest) =
      (Strings.find headerEnd ('\n' :: c :: rest)).map Nat.succ := by
    rw [Strings.find, if_neg notFirst]
  have skipped : Strings.find headerEnd ('\n' :: c :: rest) =
      (Strings.find headerEnd (c :: rest)).map (fun offset => 1 + offset) :=
    find_headerEnd_skip ['\n'] (by decide) (c :: rest)
  change Strings.find headerEnd ('\r' :: '\n' :: c :: rest) = _
  rw [step, skipped, Option.map_map]
  congr 1
  funext offset
  simp only [Function.comp_apply, Nat.succ_eq_add_one]
  omega

/-- The header section ends behind its last line. -/
theorem find_headerEnd_lines {lines : List Text} (nonempty : lines ≠ [])
    (each : forall line, line ∈ lines -> IsLine line) (body : Text) :
    Strings.find headerEnd (lines.flatMap (fun line => line ++ crlf) ++ crlf ++ body) =
      some ((lines.flatMap (fun line => line ++ crlf)).length - 2) := by
  induction lines with
  | nil => exact absurd rfl nonempty
  | cons line rest inductionHypothesis =>
      have first := each line List.mem_cons_self
      have behind : Strings.find headerEnd
          (crlf ++ (rest.flatMap (fun line => line ++ crlf) ++ (crlf ++ body))) =
          some (rest.flatMap (fun line => line ++ crlf)).length := by
        cases rest with
        | nil =>
            have here : headerEnd <+: '\r' :: '\n' :: (crlf ++ body) := ⟨body, rfl⟩
            change Strings.find headerEnd ('\r' :: '\n' :: (crlf ++ body)) = some 0
            rw [Strings.find, if_pos here]
        | cons next others =>
            rcases List.exists_cons_of_ne_nil (each next (List.mem_cons_of_mem line
                List.mem_cons_self)).1 with ⟨c, tail, same⟩
            have notReturn : c ≠ '\r' := by
              rintro rfl
              exact (each next (List.mem_cons_of_mem line List.mem_cons_self)).2.1 (by simp [same])
            have later := inductionHypothesis (by simp)
              (fun other member => each other (List.mem_cons_of_mem line member))
            rw [List.flatMap_cons, same] at later ⊢
            simp only [List.append_assoc, List.cons_append] at later ⊢
            rw [find_headerEnd_crlf notReturn, later, Option.map_some]
            simp only [List.length_cons, List.length_append]
            have two : crlf.length = 2 := rfl
            rw [Option.some.injEq]
            omega
      rw [List.flatMap_cons, List.append_assoc, List.append_assoc, List.append_assoc,
        find_headerEnd_skip _ first.2.1, behind, Option.map_some]
      have two : crlf.length = 2 := rfl
      simp only [List.length_append, Option.some.injEq]
      omega

/-- Each of the four names is recognised as itself. -/
theorem findVerb_of_mem {name : Text} {verb : Verb} (named : (name, verb) ∈ methodNames) :
    findVerb name = some verb := by
  simp only [methodNames, List.mem_cons, Prod.mk.injEq, List.not_mem_nil, or_false] at named
  rcases named with ⟨rfl, rfl⟩ | ⟨rfl, rfl⟩ | ⟨rfl, rfl⟩ | ⟨rfl, rfl⟩ <;> rfl

/-- A word that is a method name in any case has only letters. -/
theorem plain_of_named {method : Text} {verb : Verb}
    (named : (method.map Char.toLower, verb) ∈ methodNames) :
    ' ' ∉ method ∧ '/' ∉ method ∧ '\r' ∉ method ∧ '\n' ∉ method := by
  have lower : forall c, c ∈ method -> c.toLower ∈ "getposdlu".toList := by
    intro c member
    have mapped : c.toLower ∈ method.map Char.toLower := List.mem_map_of_mem member
    simp only [methodNames, List.mem_cons, Prod.mk.injEq, List.not_mem_nil, or_false] at named
    have subset : forall name : Text, name ∈ methodNames.map Prod.fst ->
        name ⊆ "getposdlu".toList := by decide
    rcases named with ⟨same, _⟩ | ⟨same, _⟩ | ⟨same, _⟩ | ⟨same, _⟩
    all_goals
      rw [same] at mapped
      exact subset _ (by decide) mapped
  refine ⟨?_, ?_, ?_, ?_⟩
  all_goals
    intro member
    have letter := lower _ member
    revert letter
    decide

theorem verbStr_append {method : Text} (plain : ' ' ∉ method) (after : Text) :
    verbStr (method ++ ' ' :: after) = method.map Char.toLower := by
  rw [verbStr, Strings.find_singleton_append plain]
  simp only [List.take_left]

/-- The query is the word between the first slash and the next space. -/
theorem findQuery_append {before target : Text} (noSlash : '/' ∉ before)
    (origin : target.head? = some '/') (oneWord : ' ' ∉ target) (after : Text) :
    findQuery (before ++ (target ++ ' ' :: after)) = some target := by
  rcases List.head?_eq_some_iff.mp origin with ⟨rest, rfl⟩
  have slash : Strings.find ['/'] (before ++ ('/' :: rest ++ ' ' :: after)) =
      some before.length := Strings.find_singleton_append noSlash _
  have space : Strings.findFrom [' '] (before ++ ('/' :: rest ++ ' ' :: after)) before.length =
      some (before.length + ('/' :: rest).length) := by
    rw [Strings.findFrom, List.drop_left, Strings.find_singleton_append oneWord, Option.map_some]
  rw [findQuery, slash]
  simp only [space, List.drop_left, Nat.add_sub_cancel_left, List.take_left]

/-- A well-formed request is parsed into its verb, its target and its body. -/
theorem parseReqStr_wireText {method target : Text} {headers : List Text} {verb : Verb}
    (named : (method.map Char.toLower, verb) ∈ methodNames)
    (origin : target.head? = some '/') (oneWord : ' ' ∉ target ∧ '\r' ∉ target ∧ '\n' ∉ target)
    (lines : forall header, header ∈ headers -> IsLine header) (body : Text) :
    parseReqStr (wireText method target headers body) =
      .ok { verb := verb, query := target, body := body, parseResult := true } := by
  have plain := plain_of_named named
  have line : IsLine (method ++ ' ' :: target ++ " HTTP/1.1".toList) := by
    refine ⟨by simp, ?_, ?_⟩
    · simp [plain.2.2.1, oneWord.2.1]
    · simp [plain.2.2.2, oneWord.2.2]
  have sections : wireText method target headers body =
      ((method ++ ' ' :: target ++ " HTTP/1.1".toList) :: headers).flatMap
        (fun line => line ++ crlf) ++ crlf ++ body := by
    simp only [wireText, List.flatMap_cons, List.append_assoc]
  have words : Exists fun after : Text =>
      wireText method target headers body = method ++ ' ' :: (target ++ ' ' :: after) := by
    refine ⟨"HTTP/1.1".toList ++ crlf ++ headers.flatMap (fun header => header ++ crlf) ++ crlf ++
      body, ?_⟩
    simp [wireText]
  have ended := find_headerEnd_lines (by simp) (List.forall_mem_cons.mpr ⟨line, lines⟩) body
  rw [← sections] at ended
  have cut : Strings.substr (wireText method target headers body)
      (Strings.afterFind (Strings.find headerEnd (wireText method target headers body)) 4) =
      some body := by
    rw [ended, Strings.afterFind, sections, List.flatMap_cons]
    have two : crlf.length = 2 := rfl
    have position : (method ++ ' ' :: target ++ " HTTP/1.1".toList ++ crlf ++
        headers.flatMap (fun line => line ++ crlf)).length - 2 + 4 =
        (method ++ ' ' :: target ++ " HTTP/1.1".toList ++ crlf ++
          headers.flatMap (fun line => line ++ crlf) ++ crlf).length := by
      simp only [List.length_append]
      omega
    rw [position]
    exact Strings.substr_append _ _
  rcases words with ⟨after, spelled⟩
  have verb : findVerb (verbStr (wireText method target headers body)) = some verb := by
    rw [spelled, verbStr_append plain.1, findVerb_of_mem named]
  have query : findQuery (wireText method target headers body) = some target := by
    have noSlash : '/' ∉ method ++ [' '] := by simp [plain.2.1]
    rw [spelled, ← List.singleton_append, ← List.append_assoc]
    exact findQuery_append noSlash origin oneWord.1 after
  have spaced : Strings.find [' '] (wireText method target headers body) = some method.length := by
    rw [spelled]
    exact Strings.find_singleton_append plain.1 _
  rw [parseReqStr, cut]
  simp only [verb, query, spaced, ended, Option.getD_some, Option.isSome_some, Bool.and_self]

end Http
end Webserver
