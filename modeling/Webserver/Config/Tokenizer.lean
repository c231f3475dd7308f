import Webserver.Http.Messages

namespace Webserver
namespace Config

/-!
# `ParseToken`

The tokenizer reads a stream character by character in one of five states.
Each state is a function on the unread text; it returns the token type, the
value, and what is left unread.  A value under construction is kept reversed,
since the quote states look at its end: a backslash in front of a quote is
erased again, and of two backslashes in a row only one is kept.

The lookahead of the quote states is a `get` followed by an `unget`.  At the end
of the stream the `get` makes the stream fail, so that the loop ends in its
quote state with an error.  The character it returns there is none of those the
states compare with.
-/

inductive TokenType where
  | start
  | normal
  | startBlock
  | endBlock
  | comment
  | statementEnd
  | eof
  | error
deriving DecidableEq

/-- A token with its value. -/
structure Token where
  type : TokenType
  value : Text
deriving DecidableEq

theorem token_eta {token : Token} {type : TokenType} (typeIs : token.type = type) :
    token = ⟨type, token.value⟩ := by
  rw [← typeIs]

/-- The characters after which a quoted token may end. -/
def endsQuoted (c : Char) : Bool :=
  c == ' ' || c == '\t' || c == '\n' || c == ';'

/-- The characters that end a bare word. -/
def endsWord (c : Char) : Bool :=
  c == ' ' || c == '\t' || c == '\n' || c == ';' || c == '{' || c == '}'

/-- The white space between tokens. -/
def isBlank (c : Char) : Bool :=
  c == ' ' || c == '\t' || c == '\n' || c == '\r'

/-- `TOKEN_STATE_SINGLE_QUOTE` and `TOKEN_STATE_DOUBLE_QUOTE`. -/
def quotedState (quote : Char) : Text -> Text -> Token × Text
  | reversed, [] => (⟨.error, reversed.reverse⟩, [])
  | reversed, c :: rest =>
      if c = quote then
        if rest.head?.any endsQuoted = true then (⟨.normal, (c :: reversed).reverse⟩, rest)
        else
          match reversed with
          | '\\' :: front => quotedState quote (c :: front) rest
          | _ => (⟨.error, (c :: reversed).reverse⟩, rest)
      else if c = '\\' ∧ rest.head? = some '\\' then quotedState quote reversed rest
      else quotedState quote (c :: reversed) rest

/-- `TOKEN_STATE_TOKEN_TYPE_COMMENT`. -/
def commentState : Text -> Text -> Token × Text
  | reversed, [] => (⟨.eof, reversed.reverse⟩, [])
  | reversed, c :: rest =>
      if c = '\n' ∨ c = '\r' then (⟨.comment, reversed.reverse⟩, rest)
      else commentState (c :: reversed) rest

/-- `TOKEN_STATE_TOKEN_TYPE_NORMAL`; the character that ends the word is left
unread. -/
def normalState : Text -> Text -> Token × Text
  | reversed, [] => (⟨.eof, reversed.reverse⟩, [])
  | reversed, c :: rest =>
      if endsWord c = true then (⟨.normal, reversed.reverse⟩, c :: rest)
      else normalState (c :: reversed) rest

/-- `ParseToken` on the unread text, from `TOKEN_STATE_INITIAL_WHITESPACE`. -/
def parseToken : Text -> Token × Text
  | [] => (⟨.eof, []⟩, [])
  | c :: rest =>
      if c = '{' then (⟨.startBlock, [c]⟩, rest)
      else if c = '}' then (⟨.endBlock, [c]⟩, rest)
      else if c = '#' then commentState [c] rest
      else if c = '"' then quotedState c [c] rest
      else if c = '\'' then quotedState c [c] rest
      else if c = ';' then (⟨.statementEnd, [c]⟩, rest)
      else if isBlank c = true then parseToken rest
      else normalState [c] rest

/-! ## Steps of the quote states -/

section Quotes

variable {quote c : Char} {rest : Text}

theorem quotedState_close (ends : rest.head?.any endsQuoted = true) (reversed : Text) :
    quotedState quote reversed (quote :: rest) =
      (⟨.normal, (quote :: reversed).reverse⟩, rest) := by
  rw [quotedState.eq_def]
  simp only [if_true, if_pos ends]

theorem quotedState_escaped (goesOn : rest.head?.any endsQuoted = false) (front : Text) :
    quotedState quote ('\\' :: front) (quote :: rest) =
      quotedState quote (quote :: front) rest := by
  rw [quotedState.eq_def]
  simp [goesOn]

theorem quotedState_stray (goesOn : rest.head?.any endsQuoted = false) {reversed : Text}
    (unescaped : reversed.head? ≠ some '\\') :
    quotedState quote reversed (quote :: rest) =
      (⟨.error, (quote :: reversed).reverse⟩, rest) := by
  rw [quotedState.eq_def]
  simp only [if_true, goesOn, if_neg Bool.false_ne_true]
  cases reversed with
  | nil => rfl
  | cons d reversed =>
      have notBackslash : d ≠ '\\' := fun same => unescaped (congrArg some same)
      split
      · rename_i front same
        exact absurd (List.cons.inj same).1 notBackslash
      · rfl

theorem quotedState_pair (notQuote : c ≠ quote) (pair : c = '\\' ∧ rest.head? = some '\\')
    (reversed : Text) :
    quotedState quote reversed (c :: rest) = quotedState quote reversed rest := by
  rw [quotedState.eq_def]
  simp only [if_neg notQuote, if_pos pair]

theorem quotedState_other (notQuote : c ≠ quote)
    (notPair : ¬(c = '\\' ∧ rest.head? = some '\\')) (reversed : Text) :
    quotedState quote reversed (c :: rest) = quotedState quote (c :: reversed) rest := by
  rw [quotedState.eq_def]
  simp only [if_neg notQuote, if_neg notPair]

end Quotes

/-- A bare word goes up to the first character that ends it. -/
theorem normalState_split (reversed text : Text) :
    Exists fun rest : Text =>
      (normalState reversed text).1.value = reversed.reverse ++ rest ∧
      text = rest ++ (normalState reversed text).2 ∧
      (forall d, d ∈ rest -> endsWord d = false) ∧
      ((normalState reversed text).1.type = .normal ∧
          (Exists fun ender : Char => Exists fun after : Text =>
            (normalState reversed text).2 = ender :: after ∧ endsWord ender = true) ∨
        (normalState reversed text).1.type = .eof ∧ (normalState reversed text).2 = []) := by
  induction text generalizing reversed with
  | nil => exact ⟨[], by simp [normalState], rfl, by simp, Or.inr ⟨rfl, rfl⟩⟩
  | cons c text inductionHypothesis =>
      rw [normalState]
      by_cases ends : endsWord c = true
      · rw [if_pos ends]
        exact ⟨[], by simp, rfl, by simp, Or.inl ⟨rfl, c, text, rfl, ends⟩⟩
      · rw [if_neg ends]
        rcases inductionHypothesis (c :: reversed) with ⟨rest, valueIs, textIs, inside, ended⟩
        refine ⟨c :: rest, by simp [valueIs], ?_, List.forall_mem_cons.mpr ⟨?_, inside⟩, ended⟩
        · rw [List.cons_append, ← textIs]
        · simpa using ends

/-! ## The tokens of a text -/

/-- The tokens end with the first end of file or error. -/
def Token.last (token : Token) : Bool := token.type == .eof || token.type == .error

/-- The tokens of at most the given number of calls. -/
def tokensWithin : Nat -> Text -> List Token
  | 0, _ => []
  | fuel + 1, text =>
      let (token, rest) := parseToken text
      if token.last = true then [token] else token :: tokensWithin fuel rest

/-- What repeated calls of `ParseToken` return on a text. -/
def tokens (text : Text) : List Token := tokensWithin (text.length + 1) text

theorem quotedState_suffix (quote : Char) (reversed text : Text) :
    (quotedState quote reversed text).2 <:+ text := by
  fun_induction quotedState quote reversed text with
  | case1 reversed => exact List.suffix_rfl
  | case2 reversed rest ends => exact List.suffix_cons _ _
  | case3 rest goesOn front inductionHypothesis =>
      exact inductionHypothesis.trans (List.suffix_cons _ _)
  | case4 reversed rest goesOn unescaped => exact List.suffix_cons _ _
  | case5 reversed c rest notQuote pair inductionHypothesis =>
      exact inductionHypothesis.trans (List.suffix_cons _ _)
  | case6 reversed c rest notQuote notPair inductionHypothesis =>
      exact inductionHypothesis.trans (List.suffix_cons _ _)

theorem commentState_suffix (reversed text : Text) : (commentState reversed text).2 <:+ text := by
  fun_induction commentState reversed text with
  | case1 reversed => exact List.suffix_rfl
  | case2 reversed c rest ends => exact List.suffix_cons _ _
  | case3 reversed c rest goesOn inductionHypothesis =>
      exact inductionHypothesis.trans (List.suffix_cons _ _)

theorem normalState_suffix (reversed text : Text) : (normalState reversed text).2 <:+ text := by
  fun_induction normalState reversed text with
  | case1 reversed => exact List.suffix_rfl
  | case2 reversed c rest ends => exact List.suffix_rfl
  | case3 reversed c rest goesOn inductionHypothesis =>
      exact inductionHypothesis.trans (List.suffix_cons _ _)

/-- What a token leaves unread is the end of the text, and every token but an end of
file takes at least one character. -/
theorem parseToken_suffix (text : Text) :
    (parseToken text).2 <:+ text ∧
      ((parseToken text).1.type = .eof ∨ (parseToken text).2.length < text.length) := by
  have taken : forall {result : Token × Text} {c : Char} {rest : Text}, result.2 <:+ rest ->
      result.2 <:+ c :: rest ∧ (result.1.type = .eof ∨ result.2.length < (c :: rest).length) :=
    fun isSuffix => ⟨isSuffix.trans (List.suffix_cons _ _),
      Or.inr (Nat.lt_succ_of_le isSuffix.length_le)⟩
  fun_induction parseToken text with
  | case1 => exact ⟨List.suffix_rfl, Or.inl rfl⟩
  | case2 | case3 | case7 => exact taken List.suffix_rfl
  | case4 => exact taken (commentState_suffix _ _)
  | case5 | case6 => exact taken (quotedState_suffix _ _ _)
  | case8 c rest _ _ _ _ _ _ blank inductionHypothesis =>
      exact ⟨inductionHypothesis.1.trans (List.suffix_cons c rest),
        inductionHypothesis.2.imp_right (fun bound => Nat.lt_succ_of_lt bound)⟩
  | case9 => exact taken (normalState_suffix _ _)

theorem parseToken_length (text : Text) :
    (parseToken text).1.type = .eof ∨ (parseToken text).2.length < text.length :=
  (parseToken_suffix text).2

theorem tokensWithin_eq {text : Text} {fuel : Nat} (enough : text.length < fuel) :
    tokensWithin fuel text = tokens text := by
  suffices same : forall first second : Nat, text.length < first -> text.length < second ->
      tokensWithin first text = tokensWithin second text from
    same fuel (text.length + 1) enough (Nat.lt_succ_self _)
  clear enough fuel
  intro first second firstEnough secondEnough
  induction first generalizing text second with
  | zero => omega
  | succ first inductionHypothesis =>
      cases second with
      | zero => omega
      | succ second =>
          rw [tokensWithin, tokensWithin]
          by_cases last : (parseToken text).1.last = true
          · simp only [if_pos last]
          · simp only [if_neg last]
            have progress := (parseToken_length text).resolve_left (by
              intro ended
              exact last (by simp [Token.last, ended]))
            rw [inductionHypothesis second (by omega) (by omega)]

/-- The tokens of a text are its first token and those of the rest. -/
theorem tokens_eq (text : Text) :
    tokens text = if (parseToken text).1.last = true then [(parseToken text).1]
      else (parseToken text).1 :: tokens (parseToken text).2 := by
  rw [tokens, tokensWithin]
  by_cases last : (parseToken text).1.last = true
  · simp only [if_pos last]
  · have progress := (parseToken_length text).resolve_left (by
      intro ended
      exact last (by simp [Token.last, ended]))
    simp only [if_neg last]
    rw [tokensWithin_eq (by omega)]

/-! ## Where tokens begin -/

/-- What is left to read of a text at some call of `ParseToken`. -/
inductive Boundary : Text -> Text -> Prop
  | here (text : Text) : Boundary text text
  | later {text rest : Text} (goesOn : (parseToken text).1.last = false)
      (onward : Boundary (parseToken text).2 rest) : Boundary text rest

theorem mem_tokens_iff (text : Text) (token : Token) :
    token ∈ tokens text <->
      Exists fun rest : Text => Boundary text rest ∧ (parseToken rest).1 = token := by
  constructor
  · intro isToken
    rw [tokens] at isToken
    generalize text.length + 1 = fuel at isToken
    induction fuel generalizing text with
    | zero => cases isToken
    | succ fuel inductionHypothesis =>
        rw [tokensWithin] at isToken
        by_cases last : (parseToken text).1.last = true
        · simp only [if_pos last, List.mem_singleton] at isToken
          exact ⟨text, .here text, isToken.symm⟩
        · simp only [if_neg last, List.mem_cons] at isToken
          rcases isToken with rfl | isLater
          · exact ⟨text, .here text, rfl⟩
          · rcases inductionHypothesis _ isLater with ⟨rest, onward, isRead⟩
            exact ⟨rest, .later (by simpa using last) onward, isRead⟩
  · rintro ⟨rest, boundary, rfl⟩
    induction boundary with
    | here text =>
        rw [tokens_eq]
        split
        · exact List.mem_singleton.mpr rfl
        · exact List.mem_cons_self
    | later goesOn _ inductionHypothesis =>
        rw [tokens_eq, goesOn, if_neg Bool.false_ne_true]
        exact List.mem_cons_of_mem _ inductionHypothesis

theorem Boundary.trans {first second third : Text} (begins : Boundary first second)
    (ends : Boundary second third) : Boundary first third := by
  induction begins with
  | here _ => exact ends
  | later goesOn _ inductionHypothesis => exact .later goesOn (inductionHypothesis ends)

theorem Boundary.next {text after : Text} {token : Token} (isRead : parseToken text = (token, after))
    (goesOn : token.last = false) : Boundary text after := by
  have afterIs : (parseToken text).2 = after := by rw [isRead]
  exact .later (by rw [isRead]; exact goesOn) (afterIs ▸ .here after)

end Config
end Webserver
