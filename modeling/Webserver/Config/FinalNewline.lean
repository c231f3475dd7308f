import Webserver.Config.ParserRuns
import Webserver.Config.Printer

namespace Webserver
namespace Config

/-!
# A newline behind the text

All tokens but the last one are the same with a newline behind the text.  At the end
of the stream `ParseToken` drops a bare word and reports the end of the file, and it
reports an error behind a closing quote, since nothing follows that a quoted token
could end in front of.  With a newline both are words.
-/

/-! ## The last token -/

/-- The quote states with a newline behind the text: it makes a difference only at
the end. -/
theorem quotedState_newline {quote : Char} (notNewline : quote ≠ '\n') (reversed text : Text) :
    quotedState quote reversed (text ++ ['\n']) =
        ((quotedState quote reversed text).1, (quotedState quote reversed text).2 ++ ['\n']) ∨
      (quotedState quote reversed text).1.type = .error ∧
        ((quotedState quote reversed (text ++ ['\n'])).1.type = .error ∨
          (quotedState quote reversed (text ++ ['\n'])).1.type = .normal ∧
            (quotedState quote reversed (text ++ ['\n'])).2 = ['\n']) := by
  have sameHead : forall {c : Char} {rest : Text}, ((c :: rest) ++ ['\n']).head? = (c :: rest).head? :=
    rfl
  -- A quote that ends the text is closed by the newline.
  have closes : forall reversed : Text, quotedState quote reversed ([quote] ++ ['\n']) =
      (⟨.normal, (quote :: reversed).reverse⟩, ['\n']) := fun reversed => quotedState_close rfl reversed
  fun_induction quotedState quote reversed text with
  | case1 reversed =>
      right
      refine ⟨rfl, Or.inl ?_⟩
      rw [List.nil_append, quotedState_other (Ne.symm notNewline) (fun pair => by cases pair.2)]
      rfl
  | case2 reversed rest ends =>
      left
      cases rest with
      | nil => cases ends
      | cons c rest => exact quotedState_close (show (c :: rest ++ ['\n']).head?.any endsQuoted = true from ends) reversed
  | case3 rest goesOn front inductionHypothesis =>
      cases rest with
      | nil => exact Or.inr ⟨rfl, Or.inr (by rw [closes]; exact ⟨rfl, rfl⟩)⟩
      | cons c rest =>
          rw [List.cons_append, quotedState_escaped (by rw [sameHead]; simpa using goesOn)]
          exact inductionHypothesis
  | case4 reversed rest goesOn unescaped =>
      cases rest with
      | nil => exact Or.inr ⟨rfl, Or.inr (by rw [closes]; exact ⟨rfl, rfl⟩)⟩
      | cons c rest =>
          left
          rw [List.cons_append, quotedState_stray (by rw [sameHead]; simpa using goesOn)]
          intro escaped
          rcases List.head?_eq_some_iff.mp escaped with ⟨front, same⟩
          exact unescaped front same
  | case5 reversed c rest notQuote pair inductionHypothesis =>
      cases rest with
      | nil => cases pair.2
      | cons d rest =>
          rw [List.cons_append, quotedState_pair notQuote (by rw [sameHead]; exact pair)]
          exact inductionHypothesis
  | case6 reversed c rest notQuote notPair inductionHypothesis =>
      have stillNotPair : ¬(c = '\\' ∧ (rest ++ ['\n']).head? = some '\\') := by
        cases rest with
        | nil => exact fun pair => by cases pair.2
        | cons d rest => exact notPair
      rw [List.cons_append, quotedState_other notQuote stillNotPair]
      exact inductionHypothesis

theorem commentState_newline (reversed text : Text) :
    (commentState reversed text).1.type = .comment ∧
        commentState reversed (text ++ ['\n']) =
          ((commentState reversed text).1, (commentState reversed text).2 ++ ['\n']) ∨
      Exists fun value : Text => commentState reversed text = (⟨.eof, value⟩, []) ∧
        commentState reversed (text ++ ['\n']) = (⟨.comment, value⟩, []) ∧
        reversed.reverse <+: value := by
  fun_induction commentState reversed text with
  | case1 reversed => exact Or.inr ⟨_, rfl, rfl, List.prefix_refl _⟩
  | case2 reversed c rest ends =>
      left
      rw [List.cons_append, commentState, if_pos ends]
      exact ⟨rfl, rfl⟩
  | case3 reversed c rest goesOn inductionHypothesis =>
      rw [List.cons_append, commentState, if_neg goesOn]
      rcases inductionHypothesis with same | ⟨value, isRead, isReadToo, begins⟩
      · exact Or.inl same
      · refine Or.inr ⟨value, isRead, isReadToo, ?_⟩
        rw [List.reverse_cons] at begins
        exact (List.prefix_append _ _).trans begins

theorem normalState_newline (reversed text : Text) :
    (normalState reversed text).1.type = .normal ∧
        normalState reversed (text ++ ['\n']) =
          ((normalState reversed text).1, (normalState reversed text).2 ++ ['\n']) ∨
      Exists fun value : Text => normalState reversed text = (⟨.eof, value⟩, []) ∧
        normalState reversed (text ++ ['\n']) = (⟨.normal, value⟩, ['\n']) := by
  fun_induction normalState reversed text with
  | case1 reversed => exact Or.inr ⟨_, rfl, rfl⟩
  | case2 reversed c rest ends =>
      left
      rw [List.cons_append, normalState, if_pos ends]
      exact ⟨rfl, rfl⟩
  | case3 reversed c rest goesOn inductionHypothesis =>
      rw [List.cons_append, normalState, if_neg goesOn]
      exact inductionHypothesis

/-- What a newline makes of the last token of a text. -/
inductive Completed : Token -> List Token -> Prop
  | error (value value' : Text) : Completed ⟨.error, value⟩ [⟨.error, value'⟩]
  | quoted (value word : Text) : Completed ⟨.error, value⟩ [⟨.normal, word⟩, ⟨.eof, []⟩]
  | blank : Completed ⟨.eof, []⟩ [⟨.eof, []⟩]
  | comment (value : Text) :
      Completed ⟨.eof, '#' :: value⟩ [⟨.comment, '#' :: value⟩, ⟨.eof, []⟩]
  | word {word : Text} (bare : Bare word) : Completed ⟨.eof, word⟩ [⟨.normal, word⟩, ⟨.eof, []⟩]

theorem tokens_of_error {text : Text} (isError : (parseToken text).1.type = .error) :
    tokens text = [⟨.error, (parseToken text).1.value⟩] := by
  rw [tokens_eq, if_pos (by simp [Token.last, isError]), ← isError]

/-- A quoted token with a newline behind the text. -/
theorem parseToken_quote_newline {quote : Char} (isQuote : IsQuote quote) (rest : Text) :
    (parseToken (quote :: rest)).1.last = false ∧
        parseToken (quote :: rest ++ ['\n']) =
          ((parseToken (quote :: rest)).1, (parseToken (quote :: rest)).2 ++ ['\n']) ∨
      (parseToken (quote :: rest)).1.last = true ∧
        Completed (parseToken (quote :: rest)).1 (tokens (quote :: rest ++ ['\n'])) := by
  have notNewline : quote ≠ '\n' := by rcases isQuote with rfl | rfl <;> decide
  have withNewline : parseToken (quote :: rest ++ ['\n']) = quotedState quote [quote] (rest ++ ['\n']) :=
    parseToken_quote isQuote _
  rw [parseToken_quote isQuote, withNewline]
  rcases quotedState_newline notNewline [quote] rest with same | ⟨isError, withError | withWord⟩
  · rcases quotedState_type quote [quote] rest with isNormal | isError
    · exact Or.inl ⟨by simp [Token.last, isNormal], same⟩
    · refine Or.inr ⟨by simp [Token.last, isError], ?_⟩
      rw [tokens_of_error (by rw [withNewline, same]; exact isError), token_eta isError]
      exact .error _ _
  · refine Or.inr ⟨by simp [Token.last, isError], ?_⟩
    rw [tokens_of_error (by rw [withNewline]; exact withError), token_eta isError]
    exact .error _ _
  · refine Or.inr ⟨by simp [Token.last, isError], ?_⟩
    have isRead : parseToken (quote :: rest ++ ['\n']) =
        (⟨.normal, (quotedState quote [quote] (rest ++ ['\n'])).1.value⟩, ['\n']) := by
      rw [withNewline]
      exact Prod.ext (token_eta withWord.1) withWord.2
    rw [tokens_cons _ isRead rfl, token_eta isError]
    exact .quoted _ _

/-- Every token but the last is the same with a newline behind the text. -/
theorem parseToken_newline (text : Text) :
    (parseToken text).1.last = false ∧
        parseToken (text ++ ['\n']) = ((parseToken text).1, (parseToken text).2 ++ ['\n']) ∨
      (parseToken text).1.last = true ∧ Completed (parseToken text).1 (tokens (text ++ ['\n'])) := by
  induction text with
  | nil => exact Or.inr ⟨rfl, .blank⟩
  | cons c rest inductionHypothesis =>
      by_cases isOpen : c = '{'
      · subst isOpen
        exact Or.inl ⟨rfl, rfl⟩
      by_cases isClose : c = '}'
      · subst isClose
        exact Or.inl ⟨rfl, rfl⟩
      by_cases isComment : c = '#'
      · subst isComment
        have withNewline : parseToken ('#' :: rest ++ ['\n']) = commentState ['#'] (rest ++ ['\n']) := rfl
        have without : parseToken ('#' :: rest) = commentState ['#'] rest := rfl
        rw [without]
        rcases commentState_newline ['#'] rest with ⟨isComment, same⟩ | ⟨value, isRead, isReadToo, begins⟩
        · exact Or.inl ⟨by simp [Token.last, isComment], by rw [withNewline, same]⟩
        · refine Or.inr ⟨by rw [isRead]; rfl, ?_⟩
          rcases begins with ⟨more, rfl⟩
          rw [isRead, tokens_cons _ (withNewline.trans isReadToo) rfl]
          exact .comment more
      by_cases isQuote : IsQuote c
      · exact parseToken_quote_newline isQuote rest
      by_cases isEnd : c = ';'
      · subst isEnd
        exact Or.inl ⟨rfl, rfl⟩
      by_cases blank : isBlank c = true
      · rw [List.cons_append, parseToken_blank blank, parseToken_blank blank, tokens_blank blank]
        exact inductionHypothesis
      · rw [IsQuote, not_or] at isQuote
        have isWord : forall after : Text, parseToken (c :: after) = normalState [c] after := by
          intro after
          simp [parseToken, isOpen, isClose, isComment, isQuote.1, isQuote.2, isEnd, blank]
        rw [List.cons_append, isWord, isWord]
        rcases normalState_newline [c] rest with ⟨isNormal, same⟩ | ⟨value, isRead, isReadToo⟩
        · exact Or.inl ⟨by simp [Token.last, isNormal], same⟩
        · refine Or.inr ⟨by rw [isRead]; rfl, ?_⟩
          rcases normalState_split [c] rest with ⟨others, valueIs, _, inside, _⟩
          rw [isRead] at valueIs ⊢
          rw [tokens_cons _ ((isWord _).trans isReadToo) rfl]
          refine .word ⟨c, others, valueIs, ?_, inside⟩
          simp [beginsWord, isOpen, isClose, isComment, isQuote.1, isQuote.2, isEnd, blank]

/-- The tokens before the last one, and what a newline makes of that. -/
theorem tokens_newline (text : Text) :
    Exists fun before : List Token => Exists fun final : Token => Exists fun ending : List Token =>
      tokens text = before ++ [final] ∧ tokens (text ++ ['\n']) = before ++ ending ∧
        final.last = true ∧ Completed final ending := by
  induction size : text.length using Nat.strong_induction_on generalizing text with
  | h size inductionHypothesis =>
      rcases parseToken_newline text with ⟨goesOn, same⟩ | ⟨last, completed⟩
      · have shorter := (parseToken_length text).resolve_left (by
          intro ended
          simp [Token.last, ended] at goesOn)
        rcases inductionHypothesis _ (size ▸ shorter) (parseToken text).2 rfl with
          ⟨before, final, ending, tokensAre, withNewline, last, completed⟩
        refine ⟨(parseToken text).1 :: before, final, ending, ?_, ?_, last, completed⟩
        · rw [tokens_cons _ rfl goesOn, tokensAre]
          rfl
        · rw [tokens_cons _ same goesOn, withNewline]
          rfl
      · refine ⟨[], (parseToken text).1, _, ?_, rfl, last, completed⟩
        rw [tokens_eq, if_pos last]
        rfl

/-! ## The two readings -/

/-- `Parse` gives the same verdict on both texts, and the same tree if that is true. -/
def SameReading (first second : Text) : Prop :=
  (parse first).map Prod.fst = (parse second).map Prod.fst ∧
    forall config, parse first = .ok (true, config) -> parse second = .ok (true, config)

/-- The loop reads everything before the last token, and that is a bare word behind a
`;` or a closing brace, which is dropped, or a quoted word that the text closes
behind more closing than opening braces. -/
def LosesWord (text : Text) : Prop :=
  Exists fun before : List Token =>
    (Chained .start (significant before) ∧ ¬ Surplus (significant before)) ∧
      ((Exists fun word : Text => Bare word ∧ tokens text = before ++ [⟨.eof, word⟩] ∧
          ((significant before).getLast? = some .statementEnd ∨
            (significant before).getLast? = some .endBlock)) ∨
        Exists fun value : Text => Exists fun word : Text =>
          tokens text = before ++ [⟨.error, value⟩] ∧
            tokens (text ++ ['\n']) = before ++ [⟨.normal, word⟩, ⟨.eof, []⟩] ∧
            (significant before).count .startBlock < (significant before).count .endBlock)

theorem parseTokens_eof (value : Text) (state : ParserState) :
    parseTokens [⟨.eof, value⟩] state = .ok (mayFollow state.lastTokenType .eof, state.config) := by
  rw [parseTokens, ParserState.step, if_neg (by simp)]
  cases mayFollow state.lastTokenType .eof <;> simp

theorem parseTokens_error (value : Text) (state : ParserState) :
    parseTokens [⟨.error, value⟩] state = .ok (false, state.config) := by
  have refused : mayFollow state.lastTokenType .error = false := rfl
  rw [parseTokens, ParserState.step, if_neg (by simp), if_pos refused]

/-- A word at the end of the file is refused, or has no statement to belong to. -/
theorem verdict_word {state : ParserState} (sound : state.Sound) (word final : Text) :
    (parseTokens [⟨.normal, word⟩, ⟨.eof, final⟩] state).map Prod.fst =
      if mayFollow state.lastTokenType .normal = true ∧ state.stack = [] then
        .error .undefinedBehavior
      else .ok false := by
  rw [parseTokens]
  have kept : (Token.mk .normal word).type ≠ .comment := by simp
  rcases step_cases sound kept with
    ⟨refused, outcome⟩ | ⟨_, ended, _⟩ | ⟨allowed, _, empty, outcome⟩ |
      ⟨_, _, filled, next, outcome, moves⟩
  · rw [outcome, if_neg (fun both => refused both.1)]
    rfl
  · cases ended
  · rw [outcome, if_pos ⟨allowed, empty⟩]
    rfl
  · rw [outcome, if_neg (fun both => filled both.2)]
    simp only [parseTokens_eof, moves.last]
    rfl

/-- The loop gives the same verdict on both endings, and the same tree if that is true. -/
def SameFrom (state : ParserState) (first second : List Token) : Prop :=
  (parseTokens first state).map Prod.fst = (parseTokens second state).map Prod.fst ∧
    forall config, parseTokens first state = .ok (true, config) ->
      parseTokens second state = .ok (true, config)

theorem SameFrom.of_eq {state : ParserState} {first second : List Token}
    (same : parseTokens first state = parseTokens second state) : SameFrom state first second :=
  ⟨congrArg _ same, fun _ accepted => same ▸ accepted⟩

/-- Without the newline a bare word is dropped, with it nothing ends its statement. -/
theorem sameFrom_word {state : ParserState} (sound : state.Sound)
    (bottom : state.stack = [] -> state.lastTokenType = .endBlock) (word final : Text) :
    SameFrom state [⟨.eof, word⟩] [⟨.normal, word⟩, ⟨.eof, final⟩] <->
      mayFollow state.lastTokenType .eof = false := by
  rw [SameFrom, parseTokens_eof, verdict_word sound]
  cases ends : mayFollow state.lastTokenType .eof with
  | true =>
      refine iff_of_false ?_ (fun ended => by cases ended)
      rintro ⟨sameVerdict, _⟩
      split at sameVerdict <;> cases sameVerdict
  | false =>
      have filled : state.stack ≠ [] := by
        intro empty
        rw [bottom empty] at ends
        cases ends
      refine iff_of_true ⟨?_, fun config accepted => by cases accepted⟩ rfl
      rw [if_neg (fun both => filled both.2)]
      rfl

/-- Without the newline a quoted word is refused, with it a statement is needed. -/
theorem sameFrom_quoted {state : ParserState} (sound : state.Sound)
    (bottom : state.stack = [] -> state.lastTokenType = .endBlock) (value word final : Text) :
    SameFrom state [⟨.error, value⟩] [⟨.normal, word⟩, ⟨.eof, final⟩] <-> state.stack ≠ [] := by
  rw [SameFrom, parseTokens_error, verdict_word sound]
  by_cases empty : state.stack = []
  · have allowed : mayFollow state.lastTokenType .normal = true := by
      rw [bottom empty]
      rfl
    rw [if_pos ⟨allowed, empty⟩]
    exact iff_of_false (fun same => by cases same.1) (fun filled => filled empty)
  · rw [if_neg (fun both => empty both.2)]
    exact iff_of_true ⟨rfl, fun config accepted => by cases accepted⟩ empty

/-- Which words are lost, for a text whose last token is reached. -/
theorem losesWord_iff {text : Text} {before ending : List Token} {final : Token}
    (tokensAre : tokens text = before ++ [final])
    (withNewline : tokens (text ++ ['\n']) = before ++ ending)
    (readable : Chained .start (significant before) ∧ ¬ Surplus (significant before)) :
    LosesWord text <->
      (Exists fun word : Text => Bare word ∧ final = ⟨.eof, word⟩ ∧
        ((significant before).getLast? = some .statementEnd ∨
          (significant before).getLast? = some .endBlock)) ∨
      Exists fun value : Text => Exists fun word : Text =>
        final = ⟨.error, value⟩ ∧ ending = [⟨.normal, word⟩, ⟨.eof, []⟩] ∧
          (significant before).count .startBlock < (significant before).count .endBlock := by
  constructor
  · rintro ⟨front, _, ⟨word, bare, split, ends⟩ | ⟨value, word, split, splitToo, prevail⟩⟩
    · rw [tokensAre] at split
      rcases List.append_inj' split rfl with ⟨rfl, sameLast⟩
      exact Or.inl ⟨word, bare, List.singleton_inj.mp sameLast, ends⟩
    · rw [tokensAre] at split
      rcases List.append_inj' split rfl with ⟨rfl, sameLast⟩
      rw [withNewline] at splitToo
      exact Or.inr ⟨value, word, List.singleton_inj.mp sameLast, List.append_cancel_left splitToo,
        prevail⟩
  · rintro (⟨word, bare, rfl, ends⟩ | ⟨value, word, rfl, rfl, prevail⟩)
    · exact ⟨before, readable, Or.inl ⟨word, bare, tokensAre, ends⟩⟩
    · exact ⟨before, readable, Or.inr ⟨value, word, tokensAre, withNewline, prevail⟩⟩

/-- The file may end behind a `;` or a closing brace. -/
theorem mayFollow_eof_iff {types : List TokenType} {last : TokenType}
    (lastIs : (TokenType.start :: types).getLast? = some last) :
    mayFollow last .eof = true <->
      types.getLast? = some .statementEnd ∨ types.getLast? = some .endBlock := by
  have decided : mayFollow last .eof = true <-> last = .statementEnd ∨ last = .endBlock := by
    cases last <;> decide
  rw [decided]
  cases types with
  | nil =>
      obtain rfl := Option.some.inj lastIs
      simp
  | cons type types =>
      rw [List.getLast?_cons_cons] at lastIs
      rw [lastIs, Option.some.injEq, Option.some.injEq]

/-- Words that the loop does not come to are not lost. -/
theorem not_losesWord_of_unread {text : Text} {before : List Token} {final : Token}
    (tokensAre : tokens text = before ++ [final])
    (ended : afterTokens before (.initial .empty) = none) : ¬ LosesWord text := by
  rintro ⟨front, readable, lost⟩
  have read := (afterTokens_isSome_iff .empty front).mpr readable
  have sameFront : front = before := by
    rcases lost with ⟨word, _, split, _⟩ | ⟨value, word, split, _⟩
    all_goals
      rw [tokensAre] at split
      exact (List.append_inj' split.symm rfl).1
  rw [sameFront, ended] at read
  cases read

/-- A newline behind a text changes nothing unless a word is lost without it. -/
theorem newline_sameReading_iff (text : Text) :
    SameReading text (text ++ ['\n']) <-> ¬ LosesWord text := by
  rcases tokens_newline text with ⟨before, final, ending, tokensAre, withNewline, _, completed⟩
  have first : parse text = parseTokens (before ++ [final]) (.initial .empty) := by
    rw [parse, parseInto, tokensAre]
  have second : parse (text ++ ['\n']) = parseTokens (before ++ ending) (.initial .empty) := by
    rw [parse, parseInto, withNewline]
  rw [SameReading, first, second, parseTokens_append, parseTokens_append]
  cases arrived : afterTokens before (.initial .empty) with
  | none =>
      exact iff_of_true ⟨rfl, fun _ same => same⟩ (not_losesWord_of_unread tokensAre arrived)
  | some state =>
      rcases afterTokens_moves (initial_sound .empty) arrived with ⟨sound, _, lastIs, heights⟩
      have bottom := afterTokens_bottom (initial_sound .empty) (fun empty => by cases empty) arrived
      have readable := (afterTokens_isSome_iff .empty before).mp (by rw [arrived]; rfl)
      have one : (ParserState.initial .empty).stack.length = 1 := rfl
      rw [losesWord_iff tokensAre withNewline readable]
      change SameFrom state [final] ending <-> _
      cases completed with
      | error value value' =>
          refine iff_of_true (SameFrom.of_eq ?_) (by simp)
          rw [parseTokens_error, parseTokens_error]
      | blank =>
          refine iff_of_true (SameFrom.of_eq rfl) ?_
          rintro (⟨word, ⟨c, rest, rfl, _⟩, same, _⟩ | ⟨value, word, same, _⟩) <;> cases same
      | comment value =>
          refine iff_of_true (SameFrom.of_eq ?_) ?_
          · have skipped : parseTokens [⟨.comment, '#' :: value⟩, ⟨.eof, []⟩] state =
                parseTokens [⟨.eof, []⟩] state := by
              rw [parseTokens, step_comment rfl]
            rw [skipped, parseTokens_eof, parseTokens_eof]
          · rintro (⟨word, ⟨c, rest, rfl, begins, _⟩, same, _⟩ | ⟨value, word, same, _⟩)
            · cases same
              cases begins
            · cases same
      | @word word bare =>
          rw [sameFrom_word sound bottom, ← Bool.not_eq_true, mayFollow_eof_iff lastIs]
          refine not_congr ⟨fun ends => Or.inl ⟨word, bare, rfl, ends⟩, ?_⟩
          rintro (⟨_, _, _, ends⟩ | ⟨value, other, same, _⟩)
          · exact ends
          · cases same
      | quoted value word =>
          have empty_iff : state.stack = [] <->
              (significant before).count .startBlock < (significant before).count .endBlock := by
            rw [← List.length_eq_zero_iff]
            omega
          rw [sameFrom_quoted sound bottom, ne_eq, empty_iff]
          refine not_congr ⟨fun prevail => Or.inr ⟨value, word, rfl, rfl, prevail⟩, ?_⟩
          rintro (⟨_, _, same, _⟩ | ⟨_, _, _, _, prevail⟩)
          · cases same
          · exact prevail

theorem droppedWord_isLost :
    parse "a; b".toList = .ok (true, .simple ["a".toList] .empty) ∧
      (parse "a; b\n".toList).map Prod.fst = .ok false ∧
      ¬ SameReading "a; b".toList ("a; b".toList ++ ['\n']) := by
  refine ⟨by decide, by decide, ?_⟩
  rintro ⟨sameVerdict, _⟩
  exact absurd sameVerdict (by decide)

end Config
end Webserver
