import Webserver.Http.RequestParser

namespace Webserver
namespace Http

/-!
# Which request lines `parse_req_str` accepts

Every well-formed request is recovered, whatever follows its NUL in memory.
The converse fails: an accepted text need not begin with a request line, since
the method name is searched for inside the first word and the slash anywhere in
the text.  The texts on which acceptance means what it should are those whose
first line already is a request line.
-/

open RequestParser

/-- The parser recovers the verb, the target and the body of every well-formed
request, whatever the memory behind its NUL holds. -/
theorem parseReqStr_recovers {method target : Text} {headers : List Text} {verb : Verb}
    (named : (method.map Char.toLower, verb) ∈ methodNames)
    (origin : target.head? = some '/') (oneWord : ' ' ∉ target ∧ '\r' ∉ target ∧ '\n' ∉ target)
    (lines : forall header, header ∈ headers -> IsLine header) {body : Text}
    (noNul : '\x00' ∉ wireText method target headers body) (memory : Text) :
    parseReqStr (cString (wireText method target headers body ++ '\x00' :: memory)) =
      .ok { verb := verb, query := target, body := body, parseResult := true } := by
  rw [cString_append_of_notMem noNul, cString_nul, List.append_nil]
  exact parseReqStr_wireText named origin oneWord lines body

/-- A body that holds the end of a header section again. -/
theorem parseReqStr_recovers_post :
    parseReqStr (cString (wireText "PoSt".toList "/a/b".toList ["Host: x/y z".toList]
        "1\r\n\r\n2".toList ++ '\x00' :: "stale".toList)) =
      .ok { verb := .post, query := "/a/b".toList, body := "1\r\n\r\n2".toList,
            parseResult := true } := by
  apply parseReqStr_recovers
  · decide
  · decide
  · decide
  · intro header member
    rw [List.mem_singleton.mp member]
    decide
  · decide

/-! ## Soundness -/

/-- The text begins with `M SP T SP V CRLF`. -/
structure BeginsWith (text method target version : Text) : Prop where
  spelled : Exists fun after : Text =>
    text = method ++ ' ' :: (target ++ ' ' :: (version ++ (crlf ++ after)))
  origin : target.head? = some '/'
  oneWord : ' ' ∉ target ∧ '\r' ∉ target ∧ '\n' ∉ target
  oneLine : '\r' ∉ version ∧ '\n' ∉ version

/-- When the text is accepted, it begins with a request line, whose method and
target are the ones returned. -/
def AcceptsRequestLine (text : Text) : Prop :=
  forall info : RequestInfo, parseReqStr text = .ok info -> info.parseResult = true ->
    Exists fun method : Text => Exists fun target : Text => Exists fun version : Text =>
      BeginsWith text method target version ∧
        (method.map Char.toLower, info.verb) ∈ methodNames ∧ info.query = target

/-- The characters before the first CR or LF. -/
def firstLine (text : Text) : Text := text.takeWhile (fun c => c != '\r' && c != '\n')

/-- Three words or more: a method name in any case, then one that begins with a
slash. -/
def IsRequestLine (line : Text) : Prop :=
  3 ≤ (line.splitOn ' ').length ∧
    ((line.splitOn ' ').getD 0 []).map Char.toLower ∈ methodNames.map Prod.fst ∧
    ((line.splitOn ' ').getD 1 []).head? = some '/'

instance (line : Text) : Decidable (IsRequestLine line) := inferInstanceAs (Decidable (_ ∧ _ ∧ _))

/-- The first line is a request line and ends in CRLF. -/
def BeginsWell (text : Text) : Prop :=
  IsRequestLine (firstLine text) ∧ crlf <+: text.drop (firstLine text).length

instance (text : Text) : Decidable (BeginsWell text) := inferInstanceAs (Decidable (_ ∧ _))

theorem firstLine_append {line : Text} (oneLine : '\r' ∉ line ∧ '\n' ∉ line) (after : Text) :
    firstLine (line ++ (crlf ++ after)) = line := by
  have kept : forall c, c ∈ line -> (c != '\r' && c != '\n') = true := by
    intro c member
    have first : c ≠ '\r' := fun same => oneLine.1 (same ▸ member)
    have second : c ≠ '\n' := fun same => oneLine.2 (same ▸ member)
    simp [first, second]
  rw [firstLine, List.takeWhile_append_of_pos kept]
  exact List.append_nil line

theorem notMem_firstLine (text : Text) : '\r' ∉ firstLine text ∧ '\n' ∉ firstLine text := by
  constructor
  all_goals
    intro member
    have kept := List.mem_takeWhile_imp member
    simp at kept

theorem splitOn_words {method target : Text} (first : ' ' ∉ method) (second : ' ' ∉ target)
    (rest : Text) : (method ++ ' ' :: (target ++ ' ' :: rest)).splitOn ' ' =
      method :: target :: rest.splitOn ' ' := by
  rw [List.splitOn_append_cons_self_of_not_mem first,
    List.splitOn_append_cons_self_of_not_mem second]

theorem BeginsWith.beginsWell {text method target version : Text} {verb : Verb}
    (begins : BeginsWith text method target version)
    (named : (method.map Char.toLower, verb) ∈ methodNames) : BeginsWell text := by
  rcases begins.spelled with ⟨after, rfl⟩
  have plain := plain_of_named named
  have line : firstLine (method ++ ' ' :: (target ++ ' ' :: (version ++ (crlf ++ after)))) =
      method ++ ' ' :: (target ++ ' ' :: version) := by
    have oneLine : '\r' ∉ method ++ ' ' :: (target ++ ' ' :: version) ∧
        '\n' ∉ method ++ ' ' :: (target ++ ' ' :: version) := by
      simp [plain.2.2, begins.oneWord.2, begins.oneLine]
    have whole := firstLine_append oneLine after
    simpa only [List.append_assoc, List.cons_append] using whole
  constructor
  · rw [line, IsRequestLine, splitOn_words plain.1 begins.oneWord.1]
    rcases List.exists_cons_of_ne_nil (List.splitOn_ne_nil ' ' version) with ⟨third, others, words⟩
    rw [words]
    refine ⟨by simp, ?_, begins.origin⟩
    exact List.mem_map_of_mem named
  · rw [line]
    refine ⟨after, ?_⟩
    simp

theorem exists_word {text : Text} (two : 2 ≤ (text.splitOn ' ').length) :
    Exists fun word : Text => Exists fun after : Text => text = word ++ ' ' :: after ∧ ' ' ∉ word := by
  by_cases spaced : ' ' ∈ text
  · rcases List.eq_append_cons_of_mem spaced with ⟨word, after, same, oneWord⟩
    exact ⟨word, after, same, oneWord⟩
  · rw [List.splitOn_eq_singleton spaced] at two
    exact absurd two (Nat.not_succ_le_self 1)

/-- A text that begins well begins with the first two words of its first line. -/
theorem BeginsWell.exists_beginsWith {text : Text} (begins : BeginsWell text) :
    Exists fun method : Text => Exists fun target : Text => Exists fun version : Text =>
    Exists fun verb : Verb =>
      BeginsWith text method target version ∧ (method.map Char.toLower, verb) ∈ methodNames := by
  rcases begins with ⟨⟨three, named, origin⟩, ended⟩
  rcases exists_word (Nat.le_of_succ_le three) with ⟨method, behind, line, first⟩
  have words : (firstLine text).splitOn ' ' = method :: behind.splitOn ' ' := by
    rw [line, List.splitOn_append_cons_self_of_not_mem first]
  rw [words, List.length_cons, Nat.succ_le_succ_iff] at three
  rcases exists_word three with ⟨target, version, rfl, second⟩
  rw [words, List.splitOn_append_cons_self_of_not_mem second] at named origin
  rcases List.mem_map.mp named with ⟨⟨name, verb⟩, member, same⟩
  have oneLine := notMem_firstLine text
  rw [line] at oneLine
  simp only [List.mem_append, List.mem_cons, not_or] at oneLine
  rcases ended with ⟨after, rest⟩
  have spelled : text = method ++ ' ' :: (target ++ ' ' :: (version ++ (crlf ++ after))) := by
    have front : text.takeWhile (fun c => c != '\r' && c != '\n') <+: text :=
      List.takeWhile_prefix _
    have cut := List.prefix_iff_eq_append.mp front
    rw [← firstLine, ← rest, line] at cut
    rw [← cut]
    simp
  refine ⟨method, target, version, verb, ⟨⟨after, spelled⟩, origin, ?_, ?_⟩, ?_⟩
  · exact ⟨second, oneLine.1.2.2.1, oneLine.2.2.2.1⟩
  · exact ⟨oneLine.1.2.2.2.2, oneLine.2.2.2.2.2⟩
  · rw [show method.map Char.toLower = name from same.symm]
    exact member

theorem verb_and_query_of_parsed {text : Text} {info : RequestInfo}
    (parsed : parseReqStr text = .ok info) :
    info.verb = (findVerb (verbStr text)).getD .unknown ∧
      info.query = (findQuery text).getD [] := by
  simp only [parseReqStr] at parsed
  split at parsed
  · cases parsed
  · rw [← Except.ok.inj parsed]
    exact ⟨rfl, rfl⟩

/-- Behind a request line the two searches find its words. -/
theorem BeginsWith.parsed {text method target version : Text} {verb : Verb} {info : RequestInfo}
    (begins : BeginsWith text method target version)
    (named : (method.map Char.toLower, verb) ∈ methodNames)
    (parsed : parseReqStr text = .ok info) : info.verb = verb ∧ info.query = target := by
  rcases begins.spelled with ⟨after, spelled⟩
  rcases verb_and_query_of_parsed parsed with ⟨verbSame, querySame⟩
  have plain := plain_of_named named
  constructor
  · rw [verbSame, spelled, verbStr_append plain.1, findVerb_of_mem named, Option.getD_some]
  · have noSlash : '/' ∉ method ++ [' '] := by simp [plain.2.1]
    have found := findQuery_append noSlash begins.origin begins.oneWord.1 (version ++ (crlf ++ after))
    rw [List.append_assoc, List.singleton_append] at found
    rw [querySame, spelled, found, Option.getD_some]

theorem Requestlike.exists_parsed {text : Text} (requestlike : Requestlike text) :
    Exists fun info : RequestInfo => parseReqStr text = .ok info ∧ info.parseResult = true := by
  cases parsed : parseReqStr text with
  | error fault =>
      have short := ((parseReqStr_eq_error_iff text fault).mp parsed).1
      have fits : headerEnd.length ≤ text.length := requestlike.1.length_le
      have four : headerEnd.length = 4 := rfl
      omega
  | ok info => exact ⟨info, rfl, (parseResult_eq_true_iff parsed).mpr requestlike⟩

/-- Acceptance means a request line exactly on the texts that are rejected or
whose first line is one. -/
theorem acceptsRequestLine_iff (text : Text) :
    AcceptsRequestLine text <-> (Requestlike text -> BeginsWell text) := by
  constructor
  · intro sound requestlike
    rcases requestlike.exists_parsed with ⟨info, parsed, accepted⟩
    rcases sound info parsed accepted with ⟨_, _, _, begins, named, _⟩
    exact begins.beginsWell named
  · intro wellBegun info parsed accepted
    rcases (wellBegun ((parseResult_eq_true_iff parsed).mp accepted)).exists_beginsWith with
      ⟨method, target, version, verb, begins, named⟩
    rcases begins.parsed named parsed with ⟨verbSame, querySame⟩
    exact ⟨method, target, version, begins, verbSame ▸ named, querySame⟩

/-- A word that merely contains a method name is taken for it. -/
theorem forget_isAccepted : ¬ AcceptsRequestLine "FORGET /a HTTP/1.1\r\n\r\n".toList := by
  intro sound
  rcases sound ⟨.get, "/a".toList, [], true⟩ rfl rfl with ⟨_, _, _, begins, named, _⟩
  exact absurd (begins.beginsWell named) (by decide)

end Http
end Webserver
