import Webserver.Config.LineEnds
import Webserver.Library.Loops
import Webserver.Library.Streams

namespace Webserver
namespace Config

open Loop (Turn Ends turnsWithin turnsWithin_of_ends)

/-!
# `ParseToken` and `Parse` on a stream

The tokenizer again, with the stream that it reads: `get`, `unget` and the state of the
stream decide what a round does.  A stream fails when a `get` finds it at its end, also
the `get` of a lookahead, and the loop ends in the next round.  Every other round takes
one character, and a lookahead puts back what it has taken.

`parseToken` and `parseTokens` are what these loops compute, so that what is said about
them is said about the stream.
-/

/-- `TokenParserState`. -/
inductive TokenParserState where
  | initialWhitespace
  | singleQuote
  | doubleQuote
  | tokenTypeComment
  | tokenTypeNormal

/-- The variables of `ParseToken`, with `*value` reversed. -/
structure TokenReading where
  state : TokenParserState
  reversed : Text
  input : InputStream

/-- `check = input->get(); input->unget();`. -/
def checkNext (input : InputStream) : Char × InputStream := (input.get.1, input.get.2.unget)

/-- `TOKEN_STATE_SINGLE_QUOTE` and `TOKEN_STATE_DOUBLE_QUOTE`. -/
def quoteTurn (state : TokenParserState) (quote c : Char) (reversed : Text) (input : InputStream) :
    Turn TokenReading (Token × InputStream) :=
  if c = quote then
    let (checkSpace, input) := checkNext input
    if endsQuoted checkSpace = true then .returns (⟨.normal, (c :: reversed).reverse⟩, input)
    else
      match reversed with
      | '\\' :: front => .goOn ⟨state, c :: front, input⟩
      | _ => .returns (⟨.error, (c :: reversed).reverse⟩, input)
  else if c = '\\' then
    let (checkBackslash, input) := checkNext input
    .goOn ⟨state, if checkBackslash = '\\' then reversed else c :: reversed, input⟩
  else .goOn ⟨state, c :: reversed, input⟩

/-- The `switch` on the state. -/
def tokenSwitch (state : TokenParserState) (c : Char) (reversed : Text) (input : InputStream) :
    Turn TokenReading (Token × InputStream) :=
  match state with
  | .initialWhitespace =>
      if c = '{' then .returns (⟨.startBlock, [c]⟩, input)
      else if c = '}' then .returns (⟨.endBlock, [c]⟩, input)
      else if c = '#' then .goOn ⟨.tokenTypeComment, [c], input⟩
      else if c = '"' then .goOn ⟨.doubleQuote, [c], input⟩
      else if c = '\'' then .goOn ⟨.singleQuote, [c], input⟩
      else if c = ';' then .returns (⟨.statementEnd, [c]⟩, input)
      else if isBlank c = true then .goOn ⟨state, reversed, input⟩
      else .goOn ⟨.tokenTypeNormal, c :: reversed, input⟩
  | .singleQuote => quoteTurn state '\'' c reversed input
  | .doubleQuote => quoteTurn state '"' c reversed input
  | .tokenTypeComment =>
      if c = '\n' ∨ c = '\r' then .returns (⟨.comment, reversed.reverse⟩, input)
      else .goOn ⟨state, c :: reversed, input⟩
  | .tokenTypeNormal =>
      if endsWord c = true then .returns (⟨.normal, reversed.reverse⟩, input.unget)
      else .goOn ⟨state, c :: reversed, input⟩

/-- What is returned at the end of the file. -/
def TokenParserState.atEnd : TokenParserState -> TokenType
  | singleQuote => .error
  | doubleQuote => .error
  | _ => .eof

/-- One round of the loop of `ParseToken`. -/
def TokenReading.turn (reading : TokenReading) : Turn TokenReading (Token × InputStream) :=
  let ended := fun input : InputStream =>
    Turn.returns (⟨reading.state.atEnd, reading.reversed.reverse⟩, input)
  if reading.input.good = false then ended reading.input
  else
    let (c, input) := reading.input.get
    if input.good = false then ended input
    else tokenSwitch reading.state c reading.reversed input

/-- `ParseToken`, with a limit on its rounds. -/
def readToken (limit : Nat) (input : InputStream) : Option (Token × InputStream) :=
  turnsWithin TokenReading.turn limit ⟨.initialWhitespace, [], input⟩

/-- One round of the loop of `Parse`: one call of `ParseToken`, and what becomes of its
token. -/
def parseTurn (limit : Nat) (round : ParserState × InputStream) :
    Turn (ParserState × InputStream) (Except Fault (Bool × NginxConfig)) :=
  match readToken limit round.2 with
  | none => .hangs
  | some (token, input) =>
      match round.1.step token with
      | .goOn next => .goOn (next, input)
      | .finished verdict => .returns (.ok (verdict, round.1.config))
      | .undefined => .returns (.error .undefinedBehavior)

/-- `Parse`, with a limit on its calls of `ParseToken` and one on the rounds of each. -/
def parseStream (limit calls : Nat) (config : NginxConfig) (input : InputStream) :
    Option (Except Fault (Bool × NginxConfig)) :=
  turnsWithin (parseTurn limit) calls (ParserState.initial config, input)

/-! ## What one call takes -/

/-- A call gives a token and leaves a text unread: the stream has moved over the
characters in between, and it has not failed where more tokens may follow. -/
structure Takes (before : InputStream) (outcome : Token × Text) (result : Token × InputStream) :
    Prop where
  token : result.1 = outcome.1
  rest : result.2.rest = outcome.2
  moved : Exists fun taken : Text =>
    before.rest = taken ++ result.2.rest ∧ result.2.past = taken.reverse ++ before.past
  good : outcome.1.last = false -> result.2.good = true

theorem Takes.cons {past rest : Text} {c : Char} {good : Bool} {outcome : Token × Text}
    {result : Token × InputStream} (takes : Takes ⟨c :: past, rest, good⟩ outcome result) :
    Takes ⟨past, c :: rest, true⟩ outcome result := by
  rcases takes.moved with ⟨taken, restIs, pastIs⟩
  refine ⟨takes.token, takes.rest, ⟨c :: taken, ?_, ?_⟩, takes.good⟩
  · rw [List.cons_append, ← restIs]
  · rw [pastIs, List.reverse_cons, List.append_assoc, List.singleton_append]

section Rounds

variable (state : TokenParserState) (reversed past rest : Text)

theorem turn_cons (c : Char) :
    TokenReading.turn ⟨state, reversed, ⟨past, c :: rest, true⟩⟩ =
      tokenSwitch state c reversed ⟨c :: past, rest, true⟩ := rfl

/-- At the end of the stream the loop ends, whether it has failed before or does so now. -/
theorem turn_ended (good : Bool) :
    TokenReading.turn ⟨state, reversed, ⟨past, [], good⟩⟩ =
      .returns (⟨state.atEnd, reversed.reverse⟩, ⟨past, [], false⟩) := by
  cases good <;> rfl

/-- A lookahead puts back what it takes, and fails at the end of the stream. -/
theorem checkNext_eq :
    checkNext ⟨past, rest, true⟩ = (rest.headD eofChar, ⟨past, rest, !rest.isEmpty⟩) := by
  cases rest with
  | nil => simp [checkNext]
  | cons c rest => rfl

theorem endsQuoted_checkNext : endsQuoted (rest.headD eofChar) = rest.head?.any endsQuoted := by
  cases rest with
  | nil => decide
  | cons c rest => rfl

theorem backslash_checkNext : rest.headD eofChar = '\\' <-> rest.head? = some '\\' := by
  cases rest with
  | nil => decide
  | cons c rest => simp

end Rounds

/-- The loop comes from a state to what the state's function says. -/
def Computes (reading : TokenReading) (outcome : Token × Text) : Prop :=
  Exists fun result : Token × InputStream =>
    Ends TokenReading.turn reading result ∧ Takes reading.input outcome result

/-- A round that reads a character and goes on. -/
theorem Computes.next {state : TokenParserState} {reversed past rest : Text} {c : Char} {good : Bool}
    {next : TokenParserState} {more : Text} {outcome : Token × Text}
    (goesOn : tokenSwitch state c reversed ⟨c :: past, rest, true⟩ =
      .goOn ⟨next, more, ⟨c :: past, rest, good⟩⟩)
    (onward : Computes ⟨next, more, ⟨c :: past, rest, good⟩⟩ outcome) :
    Computes ⟨state, reversed, ⟨past, c :: rest, true⟩⟩ outcome := by
  rcases onward with ⟨result, ends, takes⟩
  exact ⟨result, .later goesOn ends, takes.cons⟩

/-- A round that reads the last character of a token. -/
theorem Computes.last {state : TokenParserState} {reversed past rest : Text} {c : Char} {good : Bool}
    {token : Token}
    (returns : tokenSwitch state c reversed ⟨c :: past, rest, true⟩ =
      .returns (token, ⟨c :: past, rest, good⟩))
    (alive : token.last = false -> good = true) :
    Computes ⟨state, reversed, ⟨past, c :: rest, true⟩⟩ (token, rest) :=
  ⟨_, .now returns, rfl, rfl, ⟨[c], rfl, rfl⟩, alive⟩

/-- The end of the stream. -/
theorem Computes.ended {state : TokenParserState} {type : TokenType} (isType : state.atEnd = type)
    (reversed past : Text) (good : Bool) :
    Computes ⟨state, reversed, ⟨past, [], good⟩⟩ (⟨type, reversed.reverse⟩, []) := by
  subst isType
  refine ⟨_, .now (turn_ended state reversed past good), rfl, rfl, ⟨[], rfl, rfl⟩, ?_⟩
  intro goesOn
  cases state <;> cases goesOn

/-! ## The states -/

theorem commentState_computed (reversed past text : Text) :
    Computes ⟨.tokenTypeComment, reversed, ⟨past, text, true⟩⟩ (commentState reversed text) := by
  fun_induction commentState reversed text generalizing past with
  | case1 reversed => exact .ended rfl reversed past true
  | case2 reversed c rest ends =>
      refine .last ?_ (fun _ => rfl)
      simp only [tokenSwitch, if_pos ends]
  | case3 reversed c rest goesOn inductionHypothesis =>
      refine .next ?_ (inductionHypothesis (c :: past))
      simp only [tokenSwitch, if_neg goesOn]

/-- The character that ends a word is put back. -/
theorem normalState_computed (reversed past text : Text) :
    Computes ⟨.tokenTypeNormal, reversed, ⟨past, text, true⟩⟩ (normalState reversed text) := by
  fun_induction normalState reversed text generalizing past with
  | case1 reversed => exact .ended rfl reversed past true
  | case2 reversed c rest ends =>
      have returns : tokenSwitch .tokenTypeNormal c reversed ⟨c :: past, rest, true⟩ =
          .returns (⟨.normal, reversed.reverse⟩, ⟨past, c :: rest, true⟩) := by
        simp only [tokenSwitch, if_pos ends, InputStream.unget_cons]
      exact ⟨_, .now returns, rfl, rfl, ⟨[], rfl, rfl⟩, fun _ => rfl⟩
  | case3 reversed c rest goesOn inductionHypothesis =>
      refine .next ?_ (inductionHypothesis (c :: past))
      simp only [tokenSwitch, if_neg goesOn]

/-- A stream that a lookahead has made fail is at its end, and the next round ends the
loop as it does there. -/
theorem quotedState_computed {state : TokenParserState} {quote : Char}
    (isQuote : tokenSwitch state = quoteTurn state quote) (unclosed : state.atEnd = .error)
    (reversed past text : Text) {good : Bool} (alive : text ≠ [] -> good = true) :
    Computes ⟨state, reversed, ⟨past, text, good⟩⟩ (quotedState quote reversed text) := by
  have looked : forall rest : Text, rest ≠ [] -> (!rest.isEmpty) = true := by simp
  fun_induction quotedState quote reversed text generalizing past good with
  | case1 reversed => exact .ended unclosed reversed past good
  | case2 reversed rest ends =>
      obtain rfl := alive (List.cons_ne_nil _ _)
      have more : rest ≠ [] := by
        rintro rfl
        cases ends
      refine .last ?_ (fun _ => looked rest more)
      simp only [isQuote, quoteTurn, checkNext_eq, endsQuoted_checkNext, ends, if_true]
  | case3 rest goesOn front inductionHypothesis =>
      obtain rfl := alive (List.cons_ne_nil _ _)
      refine .next ?_ (inductionHypothesis (quote :: past) (looked rest))
      simp only [isQuote, quoteTurn, checkNext_eq, endsQuoted_checkNext, goesOn, if_true]
      rfl
  | case4 reversed rest goesOn unescaped =>
      obtain rfl := alive (List.cons_ne_nil _ _)
      have returns : tokenSwitch state quote reversed ⟨quote :: past, rest, true⟩ =
          .returns (⟨.error, (quote :: reversed).reverse⟩, ⟨quote :: past, rest, !rest.isEmpty⟩) := by
        simp only [isQuote, quoteTurn, checkNext_eq, endsQuoted_checkNext, goesOn, if_true,
          Bool.false_eq_true, if_false]
      exact .last returns (fun impossible => by cases impossible)
  | case5 reversed c rest notQuote pair inductionHypothesis =>
      obtain rfl := alive (List.cons_ne_nil _ _)
      refine .next ?_ (inductionHypothesis (c :: past) (looked rest))
      have isPair := (backslash_checkNext rest).mpr pair.2
      simp only [isQuote, quoteTurn, checkNext_eq, if_neg notQuote, if_pos pair.1, if_pos isPair]
  | case6 reversed c rest notQuote notPair inductionHypothesis =>
      obtain rfl := alive (List.cons_ne_nil _ _)
      by_cases backslash : c = '\\'
      · refine .next ?_ (inductionHypothesis (c :: past) (looked rest))
        have single := fun next => notPair ⟨backslash, (backslash_checkNext rest).mp next⟩
        simp only [isQuote, quoteTurn, checkNext_eq, if_neg notQuote, if_pos backslash, if_neg single]
      · refine .next ?_ (inductionHypothesis (c :: past) (fun _ => rfl))
        simp only [isQuote, quoteTurn, if_neg notQuote, if_neg backslash]

theorem parseToken_computed (past text : Text) :
    Computes ⟨.initialWhitespace, [], ⟨past, text, true⟩⟩ (parseToken text) := by
  fun_induction parseToken text generalizing past with
  | case1 => exact .ended rfl [] past true
  | case2 rest => exact .last rfl (fun _ => rfl)
  | case3 rest _ => exact .last rfl (fun _ => rfl)
  | case4 rest _ _ => exact .next rfl (commentState_computed _ _ rest)
  | case5 rest _ _ _ => exact .next rfl (quotedState_computed rfl rfl _ _ rest (fun _ => rfl))
  | case6 rest _ _ _ _ => exact .next rfl (quotedState_computed rfl rfl _ _ rest (fun _ => rfl))
  | case7 rest _ _ _ _ _ => exact .last rfl (fun _ => rfl)
  | case8 c rest _ _ _ _ _ _ blank inductionHypothesis =>
      refine .next ?_ (inductionHypothesis (c :: past))
      simp only [tokenSwitch, *, if_true, if_false]
  | case9 c rest _ _ _ _ _ _ notBlank =>
      refine .next ?_ (normalState_computed [c] (c :: past) rest)
      simp only [tokenSwitch, *, if_false, Bool.false_eq_true]

/-! ## Progress -/

/-- A round that goes on leaves the text behind its character unread. -/
theorem rest_of_tokenSwitch {state : TokenParserState} {c : Char} {reversed past rest : Text}
    {next : TokenReading} (goesOn : tokenSwitch state c reversed ⟨past, rest, true⟩ = .goOn next) :
    next.input.rest = rest := by
  have quoted : forall quote, quoteTurn state quote c reversed ⟨past, rest, true⟩ = .goOn next ->
      next.input.rest = rest := by
    intro quote goesOn
    simp only [quoteTurn, checkNext_eq] at goesOn
    repeat' split at goesOn
    all_goals cases goesOn
    all_goals rfl
  cases state with
  | singleQuote => exact quoted '\'' goesOn
  | doubleQuote => exact quoted '"' goesOn
  | _ =>
      simp only [tokenSwitch] at goesOn
      repeat' split at goesOn
      all_goals cases goesOn
      all_goals rfl

/-- A round that goes on has taken a character. -/
theorem turn_decreases {reading next : TokenReading} (goesOn : reading.turn = .goOn next) :
    next.input.rest.length < reading.input.rest.length := by
  rcases reading with ⟨state, reversed, past, rest, good⟩
  cases rest with
  | nil =>
      rw [turn_ended] at goesOn
      cases goesOn
  | cons c rest =>
      cases good with
      | false => cases goesOn
      | true =>
          rw [turn_cons] at goesOn
          rw [rest_of_tokenSwitch goesOn]
          exact Nat.lt_succ_self _

/-- What a stream still gives. -/
def unread (input : InputStream) : Text := if input.good = true then input.rest else []

/-- A call of `ParseToken` comes back after at most one round for each character and one
for the end, with the token of the unread text.  A token behind which there may be others
takes at least one character. -/
theorem readToken_eq (input : InputStream) :
    Exists fun after : InputStream =>
      (forall limit, input.rest.length < limit ->
        readToken limit input = some ((parseToken (unread input)).1, after)) ∧
      ((parseToken (unread input)).1.last = false ->
        after.good = true ∧ after.rest = (parseToken (unread input)).2 ∧
        Exists fun taken : Text => taken ≠ [] ∧ input.rest = taken ++ after.rest ∧
          after.past = taken.reverse ++ input.past) := by
  rcases input with ⟨past, rest, good⟩
  cases good with
  | false =>
      refine ⟨⟨past, rest, false⟩, fun limit enough => ?_, fun impossible => by cases impossible⟩
      cases limit with
      | zero => cases enough
      | succ limit => rfl
  | true =>
      rcases parseToken_computed past rest with ⟨⟨token, after⟩, ends, takes⟩
      have isToken : token = (parseToken rest).1 := takes.token
      subst isToken
      refine ⟨after, fun limit enough => ?_, fun goesOn => ⟨takes.good goesOn, takes.rest, ?_⟩⟩
      · exact turnsWithin_of_ends _ (fun _ _ => turn_decreases) ends enough
      · rcases takes.moved with ⟨taken, restIs, pastIs⟩
        refine ⟨taken, ?_, restIs, pastIs⟩
        rintro rfl
        have shorter := (parseToken_length rest).resolve_left (by
          intro ended
          rw [unread, if_pos rfl, Token.last, ended] at goesOn
          cases goesOn)
        rw [← takes.rest, ← show rest = after.rest from restIs] at shorter
        exact Nat.lt_irrefl _ shorter

/-- `Parse` comes back, with at most one call of `ParseToken` for each character and one
for the end. -/
theorem parseStream_eq (config : NginxConfig) (input : InputStream) {limit calls : Nat}
    (enough : input.rest.length < limit) (enoughCalls : input.rest.length < calls) :
    parseStream limit calls config input = some (parseInto config (unread input)) := by
  rw [parseStream, parseInto]
  generalize ParserState.initial config = state
  induction calls generalizing state input with
  | zero => cases enoughCalls
  | succ calls inductionHypothesis =>
      rcases readToken_eq input with ⟨after, isRead, goesOn⟩
      rw [turnsWithin, parseTurn, isRead limit enough, tokens_eq]
      by_cases last : (parseToken (unread input)).1.last = true
      · rw [if_pos last, parseTokens]
        dsimp only
        cases outcome : state.step (parseToken (unread input)).1 with
        | goOn next => exact absurd outcome (step_last last state next)
        | finished verdict => rfl
        | undefined => rfl
      · rw [if_neg last, parseTokens]
        rcases goesOn (by simpa using last) with ⟨alive, restIs, taken, nonempty, split, _⟩
        have unreadIs : unread after = (parseToken (unread input)).2 := by
          rw [unread, if_pos alive, restIs]
        have shorter := congrArg List.length split
        have positive := List.length_pos_iff.mpr nonempty
        rw [List.length_append] at shorter
        dsimp only
        cases outcome : state.step (parseToken (unread input)).1 with
        | goOn next =>
            dsimp only
            rw [inductionHypothesis after (by omega) (by omega) next, unreadIs]
        | finished verdict => rfl
        | undefined => rfl

/-- A call of `ParseToken` that returns neither an end of file nor an error takes at least
one character and exactly those up to the new position, and `Parse` returns after at most
one call more than there are characters. -/
theorem parse_makesProgress (input : InputStream) :
    (Exists fun token : Token => Exists fun after : InputStream =>
      (forall limit, input.rest.length < limit -> readToken limit input = some (token, after)) ∧
      (token.type ≠ .eof -> token.type ≠ .error -> after.good = true ∧
        Exists fun taken : Text => taken ≠ [] ∧ input.rest = taken ++ after.rest ∧
          after.past = taken.reverse ++ input.past)) ∧
    forall config : NginxConfig, Exists fun result : Except Fault (Bool × NginxConfig) =>
      forall limit calls, input.rest.length < limit -> input.rest.length + 1 ≤ calls ->
        parseStream limit calls config input = some result := by
  rcases readToken_eq input with ⟨after, isRead, goesOn⟩
  refine ⟨⟨_, after, isRead, fun notEof notError => ?_⟩, fun config => ?_⟩
  · rcases goesOn (by simp [Token.last, notEof, notError]) with ⟨alive, _, taken⟩
    exact ⟨alive, taken⟩
  · exact ⟨_, fun limit calls enough enoughCalls => parseStream_eq config input enough enoughCalls⟩

end Config
end Webserver
