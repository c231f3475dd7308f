import Webserver.Config.Comments
import Webserver.Config.FinalNewline
import Webserver.Config.RoundTrip

namespace Webserver
namespace Config

/-!
# Comments and `Parse`

A token is found again in every text that begins with its characters and goes on with the
same character as before, and a symbol in every text that begins with it.  What stands in
front of a comment is therefore read as before when the comment is left out, and the
comment itself is skipped.
-/

theorem head_append_congr {rest rest' : Text} (sameHead : rest'.head? = rest.head?) (front : Text) :
    (front ++ rest').head? = (front ++ rest).head? := by
  cases front with
  | nil => exact sameHead
  | cons c front => rfl

/-- The quote states look at no more than the character behind the token. -/
theorem quotedState_local {quote : Char} {reversed text : Text}
    (isNormal : (quotedState quote reversed text).1.type = .normal) :
    Exists fun taken : Text => text = taken ++ (quotedState quote reversed text).2 ∧
      forall rest' : Text, rest'.head? = (quotedState quote reversed text).2.head? ->
        quotedState quote reversed (taken ++ rest') = ((quotedState quote reversed text).1, rest') := by
  fun_induction quotedState quote reversed text with
  | case1 reversed => cases isNormal
  | case2 reversed rest ends =>
      refine ⟨[quote], rfl, fun rest' sameHead => ?_⟩
      have stillEnds : rest'.head?.any endsQuoted = true := by
        rw [sameHead]
        exact ends
      exact quotedState_close stillEnds reversed
  | case3 rest goesOn front inductionHypothesis =>
      rcases inductionHypothesis isNormal with ⟨taken, split, onward⟩
      refine ⟨quote :: taken, by rw [List.cons_append, ← split], fun rest' sameHead => ?_⟩
      have stillGoesOn : (taken ++ rest').head?.any endsQuoted = false := by
        rw [head_append_congr sameHead, ← split]
        simpa using goesOn
      rw [List.cons_append, quotedState_escaped stillGoesOn]
      exact onward rest' sameHead
  | case4 reversed rest goesOn unescaped => cases isNormal
  | case5 reversed c rest notQuote pair inductionHypothesis =>
      rcases inductionHypothesis isNormal with ⟨taken, split, onward⟩
      refine ⟨c :: taken, by rw [List.cons_append, ← split], fun rest' sameHead => ?_⟩
      have stillPair : c = '\\' ∧ (taken ++ rest').head? = some '\\' := by
        rw [head_append_congr sameHead, ← split]
        exact pair
      rw [List.cons_append, quotedState_pair notQuote stillPair]
      exact onward rest' sameHead
  | case6 reversed c rest notQuote notPair inductionHypothesis =>
      rcases inductionHypothesis isNormal with ⟨taken, split, onward⟩
      refine ⟨c :: taken, by rw [List.cons_append, ← split], fun rest' sameHead => ?_⟩
      have stillNotPair : ¬(c = '\\' ∧ (taken ++ rest').head? = some '\\') := by
        rw [head_append_congr sameHead, ← split]
        exact notPair
      rw [List.cons_append, quotedState_other notQuote stillNotPair]
      exact onward rest' sameHead

theorem normalState_local {reversed text : Text}
    (isNormal : (normalState reversed text).1.type = .normal) :
    Exists fun taken : Text => text = taken ++ (normalState reversed text).2 ∧
      forall rest' : Text, rest'.head? = (normalState reversed text).2.head? ->
        normalState reversed (taken ++ rest') = ((normalState reversed text).1, rest') := by
  fun_induction normalState reversed text with
  | case1 reversed => cases isNormal
  | case2 reversed c rest ends =>
      refine ⟨[], rfl, fun rest' sameHead => ?_⟩
      rcases List.head?_eq_some_iff.mp sameHead with ⟨others, rfl⟩
      rw [List.nil_append, normalState, if_pos ends]
  | case3 reversed c rest goesOn inductionHypothesis =>
      rcases inductionHypothesis isNormal with ⟨taken, split, onward⟩
      refine ⟨c :: taken, by rw [List.cons_append, ← split], fun rest' sameHead => ?_⟩
      rw [List.cons_append, normalState, if_neg goesOn]
      exact onward rest' sameHead

/-- A token that is not a comment depends on its characters and the next one, and where a
comment may follow, not even on that. -/
theorem parseToken_local {text : Text} (goesOn : (parseToken text).1.last = false)
    (notComment : (text.dropWhile isBlank).head? ≠ some '#') :
    Exists fun taken : Text => text = taken ++ (parseToken text).2 ∧
      forall rest' : Text,
        rest'.head? = (parseToken text).2.head? ∨ (parseToken text).2.head? = some '#' ->
        parseToken (taken ++ rest') = ((parseToken text).1, rest') := by
  have quoted : forall {quote : Char} (rest : Text), IsQuote quote ->
      (quotedState quote [quote] rest).1.last = false ->
      Exists fun taken : Text => quote :: rest = taken ++ (quotedState quote [quote] rest).2 ∧
        forall rest' : Text, rest'.head? = (quotedState quote [quote] rest).2.head? ∨
          (quotedState quote [quote] rest).2.head? = some '#' ->
          parseToken (taken ++ rest') = ((quotedState quote [quote] rest).1, rest') := by
    intro quote rest isQuote goesOn
    have isNormal := (quotedState_type quote [quote] rest).resolve_right
      (fun isError => by simp [Token.last, isError] at goesOn)
    rcases quotedState_local isNormal with ⟨taken, split, onward⟩
    refine ⟨quote :: taken, by rw [List.cons_append, ← split], fun rest' head => ?_⟩
    rw [List.cons_append, parseToken_quote isQuote]
    refine onward rest' (head.resolve_right (fun hash => ?_))
    have follow := quotedState_follow isNormal
    rw [hash] at follow
    cases follow
  fun_induction parseToken text with
  | case1 => cases goesOn
  | case2 rest => exact ⟨['\x7b'], rfl, fun rest' _ => rfl⟩
  | case3 rest => exact ⟨['\x7d'], rfl, fun rest' _ => rfl⟩
  | case4 rest => exact absurd rfl notComment
  | case5 rest => exact quoted rest (Or.inl rfl) goesOn
  | case6 rest => exact quoted rest (Or.inr rfl) goesOn
  | case7 rest => exact ⟨[';'], rfl, fun rest' _ => rfl⟩
  | case8 c rest _ _ _ _ _ _ blank inductionHypothesis =>
      rw [List.dropWhile_cons_of_pos blank] at notComment
      rcases inductionHypothesis goesOn notComment with ⟨taken, split, onward⟩
      refine ⟨c :: taken, by rw [List.cons_append, ← split], fun rest' head => ?_⟩
      rw [List.cons_append, parseToken_blank blank]
      exact onward rest' head
  | case9 c rest notOpen notClose notHash notDouble notSingle notEnd notBlank =>
      rcases normalState_split [c] rest with ⟨_, _, _, _, ⟨isNormal, ender, after, left, ends⟩ | ⟨isEnd, _⟩⟩
      · rcases normalState_local isNormal with ⟨taken, split, onward⟩
        refine ⟨c :: taken, by rw [List.cons_append, ← split], fun rest' head => ?_⟩
        rw [List.cons_append, parseToken, if_neg notOpen, if_neg notClose, if_neg notHash,
          if_neg notDouble, if_neg notSingle, if_neg notEnd, if_neg notBlank]
        refine onward rest' (head.resolve_right (fun hash => ?_))
        rw [left] at hash
        obtain rfl : ender = '#' := Option.some.inj hash
        cases ends
      · simp [Token.last, isEnd] at goesOn

/-! ## The tokens of the text without its comments -/

theorem tokens_dropWhile (text : Text) : tokens (text.dropWhile isBlank) = tokens text := by
  rw [tokens_eq, parseToken_dropWhile, ← tokens_eq]

theorem tokens_blanks (text after : Text) :
    tokens (text.takeWhile isBlank ++ after) = tokens after := by
  have blank : forall c, c ∈ text.takeWhile isBlank -> isBlank c = true :=
    fun c member => List.mem_takeWhile_imp member
  rw [← tokens_dropWhile (text.takeWhile isBlank ++ after), List.dropWhile_append_of_pos blank,
    tokens_dropWhile]

/-- A comment goes up to the end of its line, or of the file. -/
theorem commentState_line (reversed text : Text) :
    (text.dropWhile inLine = [] ∧ Exists fun value : Text =>
      commentState reversed text = (⟨.eof, value⟩, [])) ∨
    Exists fun ender : Char => Exists fun after : Text => Exists fun value : Text =>
      text.dropWhile inLine = ender :: after ∧ isBlank ender = true ∧
        commentState reversed text = (⟨.comment, value⟩, after) := by
  induction text generalizing reversed with
  | nil => exact Or.inl ⟨rfl, _, rfl⟩
  | cons c text inductionHypothesis =>
      rw [commentState]
      by_cases ends : c = '\n' ∨ c = '\r'
      · refine Or.inr ⟨c, text, reversed.reverse, ?_, ?_, by rw [if_pos ends]⟩
        · rcases ends with rfl | rfl <;> rfl
        · rcases ends with rfl | rfl <;> rfl
      · have goesOn : inLine c = true := by simpa [inLine] using ends
        rw [if_neg ends, List.dropWhile_cons_of_pos goesOn]
        exact inductionHypothesis (c :: reversed)

/-- The text goes on as it is, or with a comment. -/
theorem head_bare_markedWithin (fuel : Nat) (text : Text) :
    (bare (markedWithin fuel text)).head? = text.head? ∨ text.head? = some '#' := by
  cases signs : markedWithin fuel text with
  | nil =>
      left
      rw [← full_markedWithin fuel text, signs]
      rfl
  | cons sign rest =>
      rcases sign with ⟨c, inComment⟩
      cases inComment with
      | true =>
          have isHead : (markedWithin fuel text).head? = some ⟨c, true⟩ := by rw [signs]; rfl
          exact Or.inr (head_markedWithin fuel isHead rfl).1
      | false =>
          left
          rw [← full_markedWithin fuel text, signs]
          rfl

/-- From every state the parser gives the same with and without the comments. -/
theorem parseTokens_bare {fuel : Nat} {text : Text} (enough : text.length < fuel)
    (state : ParserState) :
    parseTokens (tokens (bare (markedWithin fuel text))) state = parseTokens (tokens text) state := by
  induction fuel generalizing text state with
  | zero => cases enough
  | succ fuel inductionHypothesis =>
      rw [markedWithin]
      dsimp only
      split
      · rename_i hash
        rcases List.head?_eq_some_iff.mp hash with ⟨line, begun⟩
        have noComment : bare (markAll true ((text.dropWhile isBlank).takeWhile inLine)) = [] := by
          apply bare_of_comment
          intro sign member
          rcases List.mem_map.mp member with ⟨c, _, rfl⟩
          rfl
        have size := List.length_dropWhile_le isBlank text
        rw [bare_append, bare_append, bare_markAll_false, noComment, List.nil_append, tokens_blanks,
          ← tokens_dropWhile text]
        rw [begun] at size ⊢
        have isRead : parseToken ('#' :: line) = commentState ['#'] line := rfl
        have inside : ('#' :: line).dropWhile inLine = line.dropWhile inLine := rfl
        have shorter := List.length_dropWhile_le inLine line
        rw [List.length_cons] at size
        rw [inside, inductionHypothesis (by omega) state]
        rcases commentState_line ['#'] line with ⟨ended, value, isLast⟩ | ⟨ender, after, value, ended, blank, isComment⟩
        · have lastToken : tokens ('#' :: line) = [⟨.eof, value⟩] := by
            rw [tokens_eq, isRead, isLast]
            rfl
          rw [ended, lastToken, parseTokens_eof]
          exact parseTokens_eof [] state
        · rw [ended, tokens_blank blank, tokens_cons _ (isRead.trans isComment) rfl, parseTokens,
            step_comment rfl]
      · rename_i notComment
        by_cases last : (parseToken text).1.last = true
        · rw [if_pos last, bare_append, bare_markAll_false, bare_markAll_false,
            List.suffix_iff_eq_append.mp (parseToken_suffix text).1]
        · have goesOn : (parseToken text).1.last = false := by simpa using last
          rcases parseToken_local goesOn notComment with ⟨taken, split, isLocal⟩
          have front : text.take (text.length - (parseToken text).2.length) = taken := by
            have whole := List.suffix_iff_eq_append.mp (parseToken_suffix text).1
            conv_rhs at whole => rw [split]
            exact List.append_cancel_right whole
          have progress := (parseToken_length text).resolve_left (by
            intro ended
            exact last (by simp [Token.last, ended]))
          have isRead := isLocal _ (head_bare_markedWithin fuel (parseToken text).2)
          rw [if_neg last, bare_append, bare_markAll_false, front, tokens_cons _ isRead goesOn,
            tokens_cons _ rfl goesOn, parseTokens, parseTokens]
          cases state.step (parseToken text).1 with
          | goOn next => exact inductionHypothesis (by omega) next
          | finished verdict => rfl
          | undefined => rfl

/-- To the parser comments make no difference. -/
theorem parse_uncommented (text : Text) : parse (uncommented text) = parse text :=
  parseTokens_bare (Nat.lt_succ_self _) _

end Config
end Webserver
