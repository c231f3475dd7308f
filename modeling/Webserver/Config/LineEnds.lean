import Webserver.Config.FinalNewline
import Webserver.Config.TreeWords

namespace Webserver
namespace Config

/-!
# Carriage returns in front of newlines

`ParseToken` skips a carriage return between tokens and ends a comment at it, but it
is missing among the characters that end a bare word or a quoted one.  With it in
front of a newline, a bare word takes it along, and a quoted word does not end.
Everywhere else the tokens are the same.
-/

/-- Every newline gets a carriage return in front of it. -/
def crlf (text : Text) : Text := text.flatMap (fun c => if c = '\n' then ['\r', '\n'] else [c])

/-- The same for a text that is kept reversed. -/
def crlfReversed (reversed : Text) : Text :=
  reversed.flatMap (fun c => if c = '\n' then ['\n', '\r'] else [c])

@[simp] theorem crlf_nil : crlf [] = [] := rfl

@[simp] theorem crlf_newline (rest : Text) : crlf ('\n' :: rest) = '\r' :: '\n' :: crlf rest := rfl

theorem crlf_cons {c : Char} (notNewline : c ≠ '\n') (rest : Text) :
    crlf (c :: rest) = c :: crlf rest := by
  rw [crlf, List.flatMap_cons, if_neg notNewline]
  rfl

theorem crlf_of_notMem {text : Text} (oneLine : '\n' ∉ text) : crlf text = text := by
  induction text with
  | nil => rfl
  | cons c rest inductionHypothesis =>
      rw [List.mem_cons, not_or] at oneLine
      rw [crlf_cons (Ne.symm oneLine.1), inductionHypothesis oneLine.2]

theorem crlfReversed_cons {c : Char} (notNewline : c ≠ '\n') (reversed : Text) :
    crlfReversed (c :: reversed) = c :: crlfReversed reversed := by
  rw [crlfReversed, List.flatMap_cons, if_neg notNewline]
  rfl

theorem reverse_crlfReversed (reversed : Text) :
    (crlfReversed reversed).reverse = crlf reversed.reverse := by
  induction reversed with
  | nil => rfl
  | cons c reversed inductionHypothesis =>
      have split : crlf (reversed.reverse ++ [c]) = crlf reversed.reverse ++ crlf [c] :=
        List.flatMap_append
      rw [List.reverse_cons, split, ← inductionHypothesis]
      by_cases newline : c = '\n'
      · subst newline
        simp [crlfReversed]
      · rw [crlfReversed_cons newline, crlf_cons newline, List.reverse_cons]
        rfl

theorem crlf_head {rest : Text} (notNewline : rest.head? ≠ some '\n') :
    (crlf rest).head? = rest.head? := by
  cases rest with
  | nil => rfl
  | cons c rest =>
      rw [crlf_cons (fun same => notNewline (congrArg some same))]
      rfl

/-! ## The states of the tokenizer -/

theorem commentState_crlf {text : Text} (noReturn : '\r' ∉ text) (reversed : Text) :
    (Exists fun value : Text => Exists fun rest : Text =>
      commentState reversed text = (⟨.comment, value⟩, rest) ∧
        commentState reversed (crlf text) = (⟨.comment, value⟩, '\n' :: crlf rest)) ∨
    Exists fun value : Text => commentState reversed text = (⟨.eof, value⟩, []) ∧
      commentState reversed (crlf text) = (⟨.eof, value⟩, []) := by
  induction text generalizing reversed with
  | nil => exact Or.inr ⟨_, rfl, rfl⟩
  | cons c rest inductionHypothesis =>
      rw [List.mem_cons, not_or] at noReturn
      by_cases newline : c = '\n'
      · subst newline
        exact Or.inl ⟨_, _, rfl, rfl⟩
      · have goesOn : ¬(c = '\n' ∨ c = '\r') := not_or.mpr ⟨newline, Ne.symm noReturn.1⟩
        rw [crlf_cons newline, commentState, commentState, if_neg goesOn, if_neg goesOn]
        exact inductionHypothesis noReturn.2 _

theorem normalState_crlf (reversed text : Text) :
    (Exists fun word : Text => Exists fun rest : Text =>
      normalState reversed text = (⟨.normal, word⟩, rest) ∧ rest.head? ≠ some '\n' ∧
        normalState reversed (crlf text) = (⟨.normal, word⟩, crlf rest)) ∨
    (Exists fun word : Text => Exists fun rest : Text =>
      normalState reversed text = (⟨.normal, word⟩, '\n' :: rest) ∧
        normalState reversed (crlf text) = (⟨.normal, word ++ ['\r']⟩, '\n' :: crlf rest)) ∨
    Exists fun word : Text => normalState reversed text = (⟨.eof, word⟩, []) ∧
      normalState reversed (crlf text) = (⟨.eof, word⟩, []) := by
  induction text generalizing reversed with
  | nil => exact Or.inr (Or.inr ⟨_, rfl, rfl⟩)
  | cons c rest inductionHypothesis =>
      by_cases newline : c = '\n'
      · subst newline
        refine Or.inr (Or.inl ⟨reversed.reverse, rest, rfl, ?_⟩)
        rw [crlf_newline, ← List.reverse_cons]
        rfl
      · rw [crlf_cons newline, normalState, normalState]
        by_cases ends : endsWord c = true
        · rw [if_pos ends, if_pos ends]
          refine Or.inl ⟨_, _, rfl, fun same => newline (Option.some.inj same), ?_⟩
          rw [crlf_cons newline]
        · rw [if_neg ends, if_neg ends]
          exact inductionHypothesis _

/-- What has been read between the quotes, backslashes apart, belongs to the value. -/
theorem mem_quotedState {c : Char} (notBackslash : c ≠ '\\') (quote : Char) (reversed text : Text)
    (member : c ∈ reversed) : c ∈ (quotedState quote reversed text).1.value := by
  fun_induction quotedState quote reversed text with
  | case1 reversed => simpa using member
  | case2 reversed rest ends => simp [member]
  | case3 rest goesOn front inductionHypothesis =>
      apply inductionHypothesis
      rcases List.mem_cons.mp member with same | later
      · exact absurd same notBackslash
      · exact List.mem_cons_of_mem _ later
  | case4 reversed rest goesOn unescaped => simp [member]
  | case5 reversed d rest notQuote pair inductionHypothesis => exact inductionHypothesis member
  | case6 reversed d rest notQuote notPair inductionHypothesis =>
      exact inductionHypothesis (List.mem_cons_of_mem _ member)

theorem crlf_head_backslash {rest : Text} (escaped : (crlf rest).head? = some '\\') :
    rest.head? = some '\\' := by
  cases rest with
  | nil => exact escaped
  | cons c rest =>
      by_cases newline : c = '\n'
      · subst newline
        cases escaped
      · rwa [crlf_cons newline] at escaped

theorem crlfReversed_head_backslash {reversed : Text}
    (escaped : (crlfReversed reversed).head? = some '\\') : reversed.head? = some '\\' := by
  cases reversed with
  | nil => exact escaped
  | cons c reversed =>
      by_cases newline : c = '\n'
      · subst newline
        cases escaped
      · rwa [crlfReversed_cons newline] at escaped

/-- Behind a closing quote a carriage return is read on or refused. -/
theorem quotedState_return {quote : Char} (notReturn : quote ≠ '\r') (reversed rest : Text) :
    '\r' ∈ (quotedState quote reversed (quote :: '\r' :: rest)).1.value ∨
      (quotedState quote reversed (quote :: '\r' :: rest)).1.type = .error := by
  have goesOn : (('\r' :: rest : Text).head?.any endsQuoted) = false := rfl
  by_cases escaped : reversed.head? = some '\\'
  · rcases List.head?_eq_some_iff.mp escaped with ⟨front, rfl⟩
    left
    rw [quotedState_escaped goesOn,
      quotedState_other (Ne.symm notReturn) (fun pair => absurd pair.1 (by decide))]
    exact mem_quotedState (by decide) quote _ _ List.mem_cons_self
  · right
    rw [quotedState_stray goesOn escaped]

/-- A quoted word is the same unless it ends in front of a newline; then it goes on
over the carriage return or is an error. -/
theorem quotedState_crlf {quote : Char} (isQuote : IsQuote quote) (reversed text : Text) :
    ((quotedState quote reversed text).1.type = .error ->
      (quotedState quote (crlfReversed reversed) (crlf text)).1.type = .error) ∧
    ((quotedState quote reversed text).1.type = .normal ->
      (quotedState quote reversed text).2.head? ≠ some '\n' ->
      quotedState quote (crlfReversed reversed) (crlf text) =
        (⟨.normal, crlf (quotedState quote reversed text).1.value⟩,
          crlf (quotedState quote reversed text).2)) ∧
    ((quotedState quote reversed text).1.type = .normal ->
      (quotedState quote reversed text).2.head? = some '\n' ->
      '\r' ∈ (quotedState quote (crlfReversed reversed) (crlf text)).1.value ∨
        (quotedState quote (crlfReversed reversed) (crlf text)).1.type = .error) := by
  have notNewline : quote ≠ '\n' := by rcases isQuote with rfl | rfl <;> decide
  have notReturn : quote ≠ '\r' := by rcases isQuote with rfl | rfl <;> decide
  have sameHead : forall {rest : Text}, ¬(rest.head?.any endsQuoted = true) ->
      (crlf rest).head?.any endsQuoted = false := by
    intro rest goesOn
    rw [crlf_head (fun newline => goesOn (by rw [newline]; rfl))]
    simpa using goesOn
  fun_induction quotedState quote reversed text with
  | case1 reversed =>
      exact ⟨fun _ => rfl, fun isNormal => (by cases isNormal), fun isNormal => (by cases isNormal)⟩
  | case2 reversed rest ends =>
      rw [crlf_cons notNewline]
      refine ⟨fun isError => (by cases isError), fun _ inside => ?_, fun _ atEnd => ?_⟩
      · rw [quotedState_close (by rw [crlf_head inside]; exact ends), ← reverse_crlfReversed,
          crlfReversed_cons notNewline]
      · rcases List.head?_eq_some_iff.mp atEnd with ⟨after, rfl⟩
        exact quotedState_return notReturn _ _
  | case3 rest goesOn front inductionHypothesis =>
      rw [crlf_cons notNewline, crlfReversed_cons (by decide), quotedState_escaped (sameHead goesOn),
        ← crlfReversed_cons notNewline]
      exact inductionHypothesis
  | case4 reversed rest goesOn unescaped =>
      refine ⟨fun _ => ?_, fun isNormal => (by cases isNormal), fun isNormal => (by cases isNormal)⟩
      rw [crlf_cons notNewline, quotedState_stray (sameHead goesOn)]
      intro escaped
      rcases List.head?_eq_some_iff.mp (crlfReversed_head_backslash escaped) with ⟨front, same⟩
      exact unescaped front same
  | case5 reversed c rest notQuote pair inductionHypothesis =>
      have inside : rest.head? ≠ some '\n' := by
        rw [pair.2]
        decide
      rw [crlf_cons (by rw [pair.1]; decide),
        quotedState_pair notQuote ⟨pair.1, by rw [crlf_head inside]; exact pair.2⟩]
      exact inductionHypothesis
  | case6 reversed c rest notQuote notPair inductionHypothesis =>
      by_cases newline : c = '\n'
      · subst newline
        rw [crlf_newline, quotedState_other (Ne.symm notReturn) (fun pair => absurd pair.1 (by decide)),
          quotedState_other notQuote (fun pair => absurd pair.1 (by decide))]
        exact inductionHypothesis
      · rw [crlf_cons newline,
          quotedState_other notQuote (fun pair => notPair ⟨pair.1, crlf_head_backslash pair.2⟩),
          ← crlfReversed_cons newline]
        exact inductionHypothesis

/-! ## The first token -/

/-- The first token is a word, and a newline follows directly. -/
def AtLineEnd (text : Text) : Prop :=
  (parseToken text).1.type = .normal ∧ (parseToken text).2.head? = some '\n'

theorem mem_of_quotedState {quote c : Char} {reversed text : Text}
    (member : c ∈ (quotedState quote reversed text).1.value) : c ∈ reversed ∨ c ∈ text := by
  fun_induction quotedState quote reversed text with
  | case1 reversed => exact Or.inl (by simpa using member)
  | case2 reversed rest ends =>
      simp only [List.mem_reverse, List.mem_cons] at member ⊢
      rcases member with same | earlier
      · exact Or.inr (Or.inl same)
      · exact Or.inl earlier
  | case3 rest goesOn front inductionHypothesis =>
      simp only [List.mem_cons] at inductionHypothesis ⊢
      rcases inductionHypothesis member with (same | earlier) | later
      · exact Or.inr (Or.inl same)
      · exact Or.inl (Or.inr earlier)
      · exact Or.inr (Or.inr later)
  | case4 reversed rest goesOn unescaped =>
      simp only [List.mem_reverse, List.mem_cons] at member ⊢
      rcases member with same | earlier
      · exact Or.inr (Or.inl same)
      · exact Or.inl earlier
  | case5 reversed d rest notQuote pair inductionHypothesis =>
      exact (inductionHypothesis member).imp_right (List.mem_cons_of_mem _)
  | case6 reversed d rest notQuote notPair inductionHypothesis =>
      simp only [List.mem_cons] at inductionHypothesis ⊢
      rcases inductionHypothesis member with (same | earlier) | later
      · exact Or.inr (Or.inl same)
      · exact Or.inl earlier
      · exact Or.inr (Or.inr later)

/-- A word consists of characters of the text. -/
theorem mem_of_parseToken {c : Char} {text : Text} (isNormal : (parseToken text).1.type = .normal)
    (member : c ∈ (parseToken text).1.value) : c ∈ text := by
  have inside : forall {d : Char} {rest : Text}, (c ∈ [d] ∨ c ∈ rest) -> c ∈ d :: rest :=
    fun found => List.mem_cons.mpr (found.imp_left List.mem_singleton.mp)
  fun_induction parseToken text with
  | case1 => cases member
  | case2 | case3 | case7 => cases isNormal
  | case4 rest =>
      rcases commentState_type ['#'] rest with isComment | atEnd
      · rw [isComment] at isNormal
        cases isNormal
      · rw [atEnd] at isNormal
        cases isNormal
  | case5 | case6 => exact inside (mem_of_quotedState member)
  | case8 d rest _ _ _ _ _ _ blank inductionHypothesis =>
      exact List.mem_cons_of_mem _ (inductionHypothesis isNormal member)
  | case9 d rest =>
      rcases normalState_split [d] rest with ⟨others, valueIs, restIs, _⟩
      rw [valueIs, List.mem_append, List.mem_reverse] at member
      apply inside
      rw [restIs, List.mem_append]
      exact member.imp_right Or.inl

/-- The first token in front of the carriage returns: the last one stays the last one,
a word at the end of a line does not stay what it was, and any other token does. -/
def FirstUnderCrlf (text : Text) : Prop :=
  ((parseToken text).1.last = true ∧
    (parseToken (crlf text)).1.type = (parseToken text).1.type) ∨
  ((parseToken text).1.last = false ∧ ¬ AtLineEnd text ∧
    (parseToken (crlf text)).1 = (parseToken text).1 ∧
      tokens (parseToken (crlf text)).2 = tokens (crlf (parseToken text).2)) ∨
  (AtLineEnd text ∧ ((parseToken (crlf text)).1.type = .error ∨
    (parseToken (crlf text)).1.type = .normal ∧ '\r' ∈ (parseToken (crlf text)).1.value))

theorem firstUnderCrlf_symbol {c : Char} {type : TokenType} (notNormal : type ≠ .normal)
    (goesOn : (⟨type, [c]⟩ : Token).last = false) (notNewline : c ≠ '\n')
    (isRead : forall after : Text, parseToken (c :: after) = (⟨type, [c]⟩, after)) (rest : Text) :
    FirstUnderCrlf (c :: rest) := by
  right
  left
  rw [AtLineEnd, crlf_cons notNewline, isRead, isRead]
  exact ⟨goesOn, fun atEnd => notNormal atEnd.1, rfl, rfl⟩

theorem firstUnderCrlf_comment {rest : Text} (noReturn : '\r' ∉ rest) :
    FirstUnderCrlf ('#' :: rest) := by
  have isRead : forall after : Text, parseToken ('#' :: after) = commentState ['#'] after :=
    fun _ => rfl
  rw [FirstUnderCrlf, AtLineEnd, crlf_cons (by decide), isRead, isRead]
  rcases commentState_crlf noReturn ['#'] with ⟨value, after, first, second⟩ | ⟨value, first, second⟩
  · rw [first, second]
    exact Or.inr (Or.inl ⟨rfl, fun atEnd => (by cases atEnd.1), rfl, tokens_blank rfl _⟩)
  · rw [first, second]
    exact Or.inl ⟨rfl, rfl⟩

theorem firstUnderCrlf_quote {c : Char} (isQuote : IsQuote c) {rest : Text}
    (oneLine : (parseToken (c :: rest)).1.type = .normal ->
      '\n' ∉ (parseToken (c :: rest)).1.value) : FirstUnderCrlf (c :: rest) := by
  have notNewline : c ≠ '\n' := by rcases isQuote with rfl | rfl <;> decide
  rcases quotedState_crlf isQuote [c] rest with ⟨error, inside, atEnd⟩
  rw [crlfReversed_cons notNewline] at error inside atEnd
  rw [FirstUnderCrlf, AtLineEnd, crlf_cons notNewline, parseToken_quote isQuote,
    parseToken_quote isQuote]
  rw [parseToken_quote isQuote] at oneLine
  rcases quotedState_type c [c] rest with isNormal | isError
  · by_cases followed : (quotedState c [c] rest).2.head? = some '\n'
    · refine Or.inr (Or.inr ⟨⟨isNormal, followed⟩, ?_⟩)
      rcases quotedState_type c [c] (crlf rest) with stillNormal | nowError
      · rcases atEnd isNormal followed with found | nowError
        · exact Or.inr ⟨stillNormal, found⟩
        · exact Or.inl nowError
      · exact Or.inl nowError
    · refine Or.inr (Or.inl ⟨by simp [Token.last, isNormal], fun both => followed both.2, ?_⟩)
      have same := inside isNormal followed
      rw [crlf_of_notMem (oneLine isNormal)] at same
      refine ⟨(congrArg Prod.fst same).trans (token_eta isNormal).symm, ?_⟩
      exact congrArg tokens (congrArg Prod.snd same)
  · refine Or.inl ⟨by simp [Token.last, isError], ?_⟩
    rw [isError]
    exact error isError

theorem firstUnderCrlf_word {c : Char} (notNewline : c ≠ '\n')
    (isWord : forall after : Text, parseToken (c :: after) = normalState [c] after) (rest : Text) :
    FirstUnderCrlf (c :: rest) := by
  rw [FirstUnderCrlf, AtLineEnd, crlf_cons notNewline, isWord, isWord]
  rcases normalState_crlf [c] rest with
    ⟨word, after, first, inside, second⟩ | ⟨word, after, first, second⟩ | ⟨word, first, second⟩
  · rw [first, second]
    exact Or.inr (Or.inl ⟨rfl, fun both => inside both.2, rfl, rfl⟩)
  · rw [first, second]
    exact Or.inr (Or.inr ⟨⟨rfl, rfl⟩, Or.inr ⟨rfl, by simp⟩⟩)
  · rw [first, second]
    exact Or.inl ⟨rfl, rfl⟩

theorem parseToken_crlf {text : Text} (noReturn : '\r' ∉ text)
    (oneLine : (parseToken text).1.type = .normal -> '\n' ∉ (parseToken text).1.value) :
    FirstUnderCrlf text := by
  induction text with
  | nil => exact Or.inl ⟨rfl, rfl⟩
  | cons c rest inductionHypothesis =>
      rw [List.mem_cons, not_or] at noReturn
      by_cases isOpen : c = '{'
      · subst isOpen
        exact firstUnderCrlf_symbol (by decide) rfl (by decide) (fun _ => rfl) rest
      by_cases isClose : c = '}'
      · subst isClose
        exact firstUnderCrlf_symbol (by decide) rfl (by decide) (fun _ => rfl) rest
      by_cases isEnd : c = ';'
      · subst isEnd
        exact firstUnderCrlf_symbol (by decide) rfl (by decide) (fun _ => rfl) rest
      by_cases isComment : c = '#'
      · subst isComment
        exact firstUnderCrlf_comment noReturn.2
      by_cases isQuote : IsQuote c
      · exact firstUnderCrlf_quote isQuote oneLine
      -- A newline becomes two blanks, and both are skipped.
      by_cases newline : c = '\n'
      · subst newline
        have skipped : parseToken ('\n' :: rest) = parseToken rest := parseToken_blank rfl rest
        have skippedToo : parseToken ('\r' :: '\n' :: crlf rest) = parseToken (crlf rest) :=
          (parseToken_blank rfl _).trans (parseToken_blank rfl _)
        rw [FirstUnderCrlf, AtLineEnd, crlf_newline, skippedToo, skipped]
        rw [skipped] at oneLine
        exact inductionHypothesis noReturn.2 oneLine
      by_cases blank : isBlank c = true
      · rw [FirstUnderCrlf, AtLineEnd, crlf_cons newline, parseToken_blank blank,
          parseToken_blank blank]
        rw [parseToken_blank blank] at oneLine
        exact inductionHypothesis noReturn.2 oneLine
      · rw [IsQuote, not_or] at isQuote
        refine firstUnderCrlf_word newline (fun after => ?_) rest
        simp [parseToken, isOpen, isClose, isComment, isQuote.1, isQuote.2, isEnd, blank]

/-! ## The two readings -/

/-- The calls of `ParseToken` that return the given tokens leave the given rest. -/
inductive Leaves : Text -> List Token -> Text -> Prop
  | nothing (text : Text) : Leaves text [] text
  | token {text rest : Text} {others : List Token} (goesOn : (parseToken text).1.last = false)
      (onward : Leaves (parseToken text).2 others rest) :
      Leaves text ((parseToken text).1 :: others) rest

theorem Leaves.tokens {text rest : Text} {before : List Token} (leaves : Leaves text before rest) :
    tokens text = before ++ tokens rest := by
  induction leaves with
  | nothing _ => rfl
  | token goesOn _ inductionHypothesis =>
      rw [tokens_cons _ rfl goesOn, inductionHypothesis]
      rfl

/-- The loop comes to a word that ends directly in front of a newline, and takes it. -/
def TakesFrom (state : ParserState) (text : Text) : Prop :=
  Exists fun before : List Token => Exists fun rest : Text =>
    Leaves text before rest ∧ AtLineEnd rest ∧
      (afterTokens (before ++ [(parseToken rest).1]) state).isSome

/-- A word is taken at the end of a line here or behind the first token. -/
theorem takesFrom_step {text : Text} {state next : ParserState}
    (goesOn : (parseToken text).1.last = false) (outcome : state.step (parseToken text).1 = .goOn next) :
    TakesFrom state text <-> AtLineEnd text ∨ TakesFrom next (parseToken text).2 := by
  constructor
  · rintro ⟨before, rest, leaves, atEnd, taken⟩
    cases leaves with
    | nothing _ => exact Or.inl atEnd
    | @token _ _ others _ onward =>
        rw [List.cons_append, afterTokens, outcome] at taken
        exact Or.inr ⟨others, rest, onward, atEnd, taken⟩
  · rintro (atEnd | ⟨before, rest, onward, atEnd, taken⟩)
    · refine ⟨[], text, .nothing text, atEnd, ?_⟩
      rw [List.nil_append, afterTokens, outcome]
      rfl
    · refine ⟨(parseToken text).1 :: before, rest, .token goesOn onward, atEnd, ?_⟩
      rw [List.cons_append, afterTokens, outcome]
      exact taken

/-- Nothing is taken where the loop ends. -/
theorem not_takesFrom_of_ended {text : Text} {state : ParserState}
    (ends : forall next, state.step (parseToken text).1 ≠ .goOn next) : ¬ TakesFrom state text := by
  have stops : forall others : List Token,
      ¬ (afterTokens ((parseToken text).1 :: others) state).isSome := by
    intro others taken
    rw [afterTokens] at taken
    cases outcome : state.step (parseToken text).1 with
    | goOn next => exact ends next outcome
    | finished verdict =>
        rw [outcome] at taken
        cases taken
    | undefined =>
        rw [outcome] at taken
        cases taken
  rintro ⟨before, rest, leaves, _, taken⟩
  cases leaves with
  | nothing _ => exact stops [] taken
  | token goesOn onward => exact stops _ taken

/-- What the loop does with its last token depends on its type alone. -/
theorem parseTokens_last {token other : Token} (last : token.last = true)
    (sameType : other.type = token.type) (state : ParserState) :
    parseTokens [other] state = parseTokens [token] state := by
  rcases token with ⟨type, value⟩
  rcases other with ⟨type', value'⟩
  obtain rfl : type' = type := sameType
  cases type' <;> first | rfl | cases last

theorem step_refused {state : ParserState} {token : Token} (kept : token.type ≠ .comment)
    (refused : ¬ state.Allows token) : state.step token = .finished false := by
  rw [ParserState.step, if_neg kept, if_pos (by simpa [ParserState.Allows] using refused)]

/-- The loop ends on the last token. -/
theorem step_last {token : Token} (last : token.last = true) (state next : ParserState) :
    state.step token ≠ .goOn next := by
  rcases token with ⟨type, value⟩
  cases type with
  | eof =>
      rw [ParserState.step, if_neg (by simp)]
      cases mayFollow state.lastTokenType .eof <;> simp
  | error =>
      rw [step_refused (by simp) (by simp [ParserState.Allows, mayFollow])]
      simp
  | _ => cases last

/-- Whether a word is taken does not depend on what it is. -/
theorem step_word {state next : ParserState} (sound : state.Sound) {word other : Token}
    (isWord : word.type = .normal) (isWordToo : other.type = .normal)
    (outcome : state.step word = .goOn next) :
    Exists fun next' : ParserState => state.step other = .goOn next' := by
  have kept : forall token : Token, token.type = .normal -> token.type ≠ .comment := by
    intro token isNormal
    simp [isNormal]
  have sameTable : state.Allows other <-> state.Allows word := by
    rw [ParserState.Allows, ParserState.Allows, isWord, isWordToo]
  rcases step_cases sound (kept word isWord) with
    ⟨_, ended⟩ | ⟨_, _, ended⟩ | ⟨_, _, _, ended⟩ | ⟨allowed, _, filled, _, _, _⟩
  · rw [ended] at outcome
    cases outcome
  · rw [ended] at outcome
    cases outcome
  · rw [ended] at outcome
    cases outcome
  rcases step_cases sound (kept other isWordToo) with
    ⟨refused, _⟩ | ⟨_, atEnd, _⟩ | ⟨_, _, empty, _⟩ | ⟨_, _, _, next', outcomeToo, _⟩
  · exact absurd (sameTable.mpr allowed) refused
  · rw [isWordToo] at atEnd
    cases atEnd
  · exact absurd empty filled
  · exact ⟨next', outcomeToo⟩

/-- A word on which the loop ends is one that the table refuses, like any other. -/
theorem refused_of_finished {state : ParserState} (sound : state.Sound) {word : Token}
    (isWord : word.type = .normal) {accepted : Bool} (outcome : state.step word = .finished accepted) :
    accepted = false ∧ forall other : Token, other.type = .normal -> ¬ state.Allows other := by
  have kept : word.type ≠ .comment := by simp [isWord]
  rcases step_cases sound kept with
    ⟨refused, ended⟩ | ⟨_, atEnd, _⟩ | ⟨_, _, _, ended⟩ | ⟨_, _, _, next, ended, _⟩
  · rw [ended] at outcome
    injection outcome with same
    refine ⟨same.symm, fun other isWordToo allowed => refused ?_⟩
    rw [ParserState.Allows, isWord]
    rwa [ParserState.Allows, isWordToo] at allowed
  · rw [isWord] at atEnd
    cases atEnd
  · rw [ended] at outcome
    cases outcome
  · rw [ended] at outcome
    cases outcome

/-- A word that is taken is the next word of the tree. -/
theorem next_word {state next : ParserState} {token : Token} (building : state.Building)
    (isWord : token.type = .normal) (outcome : state.step token = .goOn next) {rest : List Token}
    {verdict : Bool} {config : NginxConfig}
    (parsed : parseTokens (token :: rest) state = .ok (verdict, config)) :
    state.words ++ [token.value] <+: config.words := by
  rcases words_of_step building outcome with ⟨onward, wordsAre⟩
  rw [if_pos isWord] at wordsAre
  rw [parseTokens, outcome] at parsed
  rw [← wordsAre]
  exact words_of_run onward parsed

/-- A word that is taken at the end of a line does not come out as it was. -/
theorem taken_differs {text : Text} (noReturn : '\r' ∉ text) {state next : ParserState}
    (building : state.Building) (atEnd : AtLineEnd text)
    (outcome : state.step (parseToken text).1 = .goOn next)
    (changed : (parseToken (crlf text)).1.type = .error ∨
      (parseToken (crlf text)).1.type = .normal ∧ '\r' ∈ (parseToken (crlf text)).1.value)
    {verdict : Bool} {config : NginxConfig}
    (parsed : parseTokens (tokens text) state = .ok (verdict, config)) :
    parseTokens (tokens (crlf text)) state ≠ .ok (verdict, config) := by
  have goesOn : (parseToken text).1.last = false := by simp [Token.last, atEnd.1]
  rw [tokens_cons _ rfl goesOn] at parsed
  have begins := next_word building atEnd.1 outcome parsed
  intro same
  rcases changed with isError | ⟨isNormal, found⟩
  · have refused : parseTokens (tokens (crlf text)) state = .ok (false, state.config) := by
      rw [tokens_of_error isError, parseTokens_error]
    rw [refused] at same
    obtain ⟨_, rfl⟩ := Prod.mk.inj (Except.ok.inj same)
    rw [words_config building] at begins
    have shorter := begins.length_le
    rw [List.length_append, List.length_singleton] at shorter
    omega
  · have goesOnToo : (parseToken (crlf text)).1.last = false := by simp [Token.last, isNormal]
    rw [tokens_cons _ rfl goesOnToo] at same
    rcases step_word building.sound atEnd.1 isNormal outcome with ⟨next', outcomeToo⟩
    have beginsToo := next_word building isNormal outcomeToo same
    have samePrefix := List.prefix_of_prefix_length_le begins beginsToo (by simp)
    have sameWord := (samePrefix.eq_of_length (by simp))
    have wordsEqual := List.singleton_inj.mp (List.append_cancel_left sameWord)
    rw [← wordsEqual] at found
    exact noReturn (mem_of_parseToken atEnd.1 found)

/-- From any state that the loop can be in, the carriage returns make a difference
exactly where a word is taken at the end of a line. -/
theorem parseTokens_crlf {text : Text} (noReturn : '\r' ∉ text)
    (oneLine : forall token, token ∈ tokens text -> token.type = .normal -> '\n' ∉ token.value)
    {state : ParserState} (building : state.Building) {verdict : Bool} {config : NginxConfig}
    (parsed : parseTokens (tokens text) state = .ok (verdict, config)) :
    parseTokens (tokens (crlf text)) state = .ok (verdict, config) <-> ¬ TakesFrom state text := by
  induction size : text.length using Nat.strong_induction_on generalizing text state with
  | h size inductionHypothesis =>
      have head : (parseToken text).1 ∈ tokens text :=
        (mem_tokens_iff text _).mpr ⟨text, .here text, rfl⟩
      rcases parseToken_crlf noReturn (oneLine _ head) with
        ⟨last, sameType⟩ | ⟨goesOn, inside, sameToken, sameRest⟩ | ⟨atEnd, changed⟩
      · have lastToo : (parseToken (crlf text)).1.last = true := by
          rw [Token.last, sameType]
          exact last
        rw [tokens_eq, if_pos last] at parsed
        refine iff_of_true ?_ (not_takesFrom_of_ended ?_)
        · rw [tokens_eq, if_pos lastToo, parseTokens_last last sameType, parsed]
        · exact step_last last state
      · have goesOnToo : (parseToken (crlf text)).1.last = false := by rw [sameToken, goesOn]
        rw [tokens_cons _ rfl goesOn] at parsed
        rw [tokens_cons _ rfl goesOnToo, sameRest, sameToken]
        cases outcome : state.step (parseToken text).1 with
        | finished accepted =>
            rw [parseTokens, outcome] at parsed ⊢
            refine iff_of_true parsed (not_takesFrom_of_ended ?_)
            rw [outcome]
            simp
        | undefined =>
            rw [parseTokens, outcome] at parsed
            cases parsed
        | goOn next =>
            rw [parseTokens, outcome] at parsed ⊢
            rw [takesFrom_step goesOn outcome, or_iff_right inside]
            have shorter := (parseToken_length text).resolve_left (by
              intro ended
              simp [Token.last, ended] at goesOn)
            refine inductionHypothesis _ (size ▸ shorter) ?_ ?_ (words_of_step building outcome).1 parsed rfl
            · exact fun found => noReturn ((parseToken_suffix text).1.mem found)
            · intro token isToken
              refine oneLine token ?_
              rw [tokens_cons _ rfl goesOn]
              exact List.mem_cons_of_mem _ isToken
      · have goesOn : (parseToken text).1.last = false := by simp [Token.last, atEnd.1]
        cases outcome : state.step (parseToken text).1 with
        | goOn next =>
            refine iff_of_false (taken_differs noReturn building atEnd outcome changed parsed) ?_
            rw [takesFrom_step goesOn outcome, not_not]
            exact Or.inl atEnd
        | finished accepted =>
            refine iff_of_true ?_ (not_takesFrom_of_ended (by rw [outcome]; simp))
            rw [tokens_cons _ rfl goesOn, parseTokens, outcome] at parsed
            rcases refused_of_finished building.sound atEnd.1 outcome with ⟨rfl, refused⟩
            rw [← parsed]
            rcases changed with isError | ⟨isNormal, _⟩
            · rw [tokens_of_error isError, parseTokens_error]
            · rw [tokens_cons _ rfl (by simp [Token.last, isNormal]), parseTokens,
                step_refused (by simp [isNormal]) (refused _ isNormal)]
        | undefined =>
            rw [tokens_cons _ rfl goesOn, parseTokens, outcome] at parsed
            cases parsed

/-- The tokens up to a word that ends directly in front of a newline are ones that the
table allows. -/
def TakesWordAtLineEnd (text : Text) : Prop :=
  Exists fun before : List Token => Exists fun rest : Text =>
    Leaves text before rest ∧ AtLineEnd rest ∧
      Chained .start (significant (before ++ [(parseToken rest).1]))

theorem Surplus.append {types : List TokenType} (surplus : Surplus types) (more : List TokenType) :
    Surplus (types ++ more) := by
  rcases surplus with ⟨before, next, rest, rfl, chained, prevail⟩
  exact ⟨before, next, rest ++ more, by simp, chained, prevail⟩

/-- Where no empty stack is touched, the table decides what is taken. -/
theorem takesFrom_iff {text : Text} (bounded : ¬ Surplus (significant (tokens text)))
    (config : NginxConfig) : TakesFrom (.initial config) text <-> TakesWordAtLineEnd text := by
  rw [TakesFrom, TakesWordAtLineEnd]
  refine exists_congr fun before => exists_congr fun rest =>
    and_congr_right fun leaves => and_congr_right fun atEnd => ?_
  have goesOn : (parseToken rest).1.last = false := by simp [Token.last, atEnd.1]
  rw [afterTokens_isSome_iff]
  refine and_iff_left fun surplus => bounded ?_
  rw [leaves.tokens, tokens_cons _ rfl goesOn, ← List.singleton_append, ← List.append_assoc,
    significant_append]
  exact surplus.append _

/-- Carriage returns in front of the newlines change nothing exactly when no word that is
taken ends directly in front of a newline. -/
theorem crlf_sameReading_iff {text : Text} (noReturn : '\r' ∉ text)
    (oneLine : forall token, token ∈ tokens text -> token.type = .normal -> '\n' ∉ token.value) :
    (forall verdict config, parse text = .ok (verdict, config) ->
      parse (crlf text) = .ok (verdict, config)) <->
      Surplus (significant (tokens text)) ∨ ¬ TakesWordAtLineEnd text := by
  by_cases surplus : Surplus (significant (tokens text))
  · refine iff_of_true (fun verdict config parsed => ?_) (Or.inl surplus)
    rw [parse, (parse_error_iff .empty text).mpr surplus] at parsed
    cases parsed
  rw [or_iff_right surplus, ← takesFrom_iff surplus .empty]
  cases outcome : parse text with
  | error fault =>
      obtain rfl := parseTokens_fault outcome
      exact absurd ((parse_error_iff .empty text).mp outcome) surplus
  | ok reading =>
      rcases reading with ⟨verdict, config⟩
      have decided := parseTokens_crlf noReturn oneLine (initial_building .empty) outcome
      constructor
      · exact fun same => decided.mp (same verdict config rfl)
      · rintro untaken _ _ same
        obtain ⟨rfl, rfl⟩ := Prod.mk.inj (Except.ok.inj same)
        exact decided.mpr untaken

theorem blockOnOneLine_sameReading :
    (forall verdict config, parse "server \x7b\n\x7d\n".toList = .ok (verdict, config) ->
      parse (crlf "server \x7b\n\x7d\n".toList) = .ok (verdict, config)) <->
      Surplus (significant (tokens "server \x7b\n\x7d\n".toList)) ∨
        ¬ TakesWordAtLineEnd "server \x7b\n\x7d\n".toList :=
  crlf_sameReading_iff (by decide) (by decide)

/-- With the brace on a line of its own the word gets a carriage return. -/
theorem wordAtLineEnd_isChanged :
    '\r' ∉ "server\n\x7b\n\x7d\n".toList ∧
      (forall token, token ∈ tokens "server\n\x7b\n\x7d\n".toList -> token.type = .normal ->
        '\n' ∉ token.value) ∧
      parse "server\n\x7b\n\x7d\n".toList = .ok (true, .block ["server".toList] .empty .empty) ∧
      parse (crlf "server\n\x7b\n\x7d\n".toList) =
        .ok (true, .block ["server\r".toList] .empty .empty) ∧
      ¬ forall verdict config, parse "server\n\x7b\n\x7d\n".toList = .ok (verdict, config) ->
        parse (crlf "server\n\x7b\n\x7d\n".toList) = .ok (verdict, config) := by
  refine ⟨by decide, by decide, by decide, by decide, fun same => ?_⟩
  have changed := same true (.block ["server".toList] .empty .empty) (by decide)
  exact absurd changed (by decide)

end Config
end Webserver
