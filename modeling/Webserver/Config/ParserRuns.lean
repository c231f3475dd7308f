import Webserver.Config.Grammar

namespace Webserver
namespace Config

/-!
# The rounds of `Parse`

A sequence of tokens takes the loop from one state to another, unless the loop
ends on the way.  What a round can do is said once, in `step_cases`: the table of
transitions decides whether it goes on, and the height of the stack whether it
can.  From this follow the states that are reached, and where an empty stack is
touched.
-/

/-- The state after the given tokens, if the loop does not end on one of them. -/
def afterTokens : List Token -> ParserState -> Option ParserState
  | [], state => some state
  | token :: rest, state =>
      match state.step token with
      | .goOn next => afterTokens rest next
      | _ => none

/-- The loop comes to a token in some state. -/
def Comes (sequence : List Token) (start state : ParserState) (token : Token) : Prop :=
  Exists fun before : List Token => Exists fun rest : List Token =>
    sequence = before ++ token :: rest ∧ afterTokens before start = some state

theorem parseTokens_append (before after : List Token) (state : ParserState) :
    parseTokens (before ++ after) state =
      match afterTokens before state with
      | some next => parseTokens after next
      | none => parseTokens before state := by
  induction before generalizing state with
  | nil => rfl
  | cons token rest inductionHypothesis =>
      rw [List.cons_append, parseTokens, afterTokens]
      cases outcome : state.step token with
      | goOn next =>
          rw [parseTokens, outcome]
          exact inductionHypothesis next
      | finished verdict => simp only [parseTokens, outcome]
      | undefined => simp only [parseTokens, outcome]

theorem afterTokens_append (before after : List Token) (state : ParserState) :
    afterTokens (before ++ after) state = (afterTokens before state).bind (afterTokens after) := by
  induction before generalizing state with
  | nil => rfl
  | cons token rest inductionHypothesis =>
      rw [List.cons_append, afterTokens, afterTokens]
      cases state.step token with
      | goOn next => exact inductionHypothesis next
      | finished verdict => rfl
      | undefined => rfl

/-- A loop that ends does so in the first round that does not go on. -/
theorem exists_of_afterTokens_none {sequence : List Token} {state : ParserState}
    (ended : afterTokens sequence state = none) :
    Exists fun next : ParserState => Exists fun token : Token =>
      Comes sequence state next token ∧ forall other, next.step token ≠ .goOn other := by
  induction sequence generalizing state with
  | nil => cases ended
  | cons token rest inductionHypothesis =>
      rw [afterTokens] at ended
      cases outcome : state.step token with
      | goOn next =>
          rw [outcome] at ended
          rcases inductionHypothesis ended with ⟨last, final, ⟨before, after, split, reached⟩, stops⟩
          refine ⟨last, final, ⟨token :: before, after, ?_, ?_⟩, stops⟩
          · rw [List.cons_append, ← split]
          · rw [afterTokens, outcome]
            exact reached
      | finished verdict =>
          exact ⟨state, token, ⟨[], rest, rfl, rfl⟩, by rw [outcome]; simp⟩
      | undefined =>
          exact ⟨state, token, ⟨[], rest, rfl, rfl⟩, by rw [outcome]; simp⟩

/-! ## What a round does -/

/-- The token is not skipped, and the table allows it. -/
def ParserState.Allows (state : ParserState) (token : Token) : Prop :=
  mayFollow state.lastTokenType token.type = true

/-- A round that reads its token moves the type and the height. -/
structure ParserState.Moves (state : ParserState) (type : TokenType) (next : ParserState) : Prop where
  sound : next.Sound
  last : next.lastTokenType = type
  height : next.stack.length + [type].count .endBlock = state.stack.length + [type].count .startBlock

/-- The table refuses a token, or it is the end of the file, or the stack is
empty, or the loop goes on. -/
theorem step_cases {state : ParserState} {token : Token} (sound : state.Sound)
    (kept : token.type ≠ .comment) :
    (¬ state.Allows token ∧ state.step token = .finished false) ∨
    (state.Allows token ∧ token.type = .eof ∧ state.step token = .finished true) ∨
    (state.Allows token ∧ token.type ≠ .eof ∧ state.stack = [] ∧ state.step token = .undefined) ∨
    (state.Allows token ∧ token.type ≠ .eof ∧ state.stack ≠ [] ∧
      Exists fun next : ParserState => state.step token = .goOn next ∧ state.Moves token.type next) := by
  rcases state with ⟨last, stack, popped⟩
  rcases token with ⟨type, value⟩
  simp only [ParserState.Allows, ParserState.step] at kept ⊢
  rw [if_neg kept]
  by_cases refused : mayFollow last type = false
  · exact Or.inl ⟨by simp [refused], by rw [if_pos refused]⟩
  have allowed : mayFollow last type = true := by simpa using refused
  rw [if_neg refused]
  right
  cases type with
  | start => cases allowed
  | comment => exact absurd rfl kept
  | error => cases allowed
  | eof => exact Or.inl ⟨allowed, rfl, rfl⟩
  | statementEnd =>
      have reading : last = .normal := reading_of_mayFollow (Or.inl rfl) allowed
      rcases sound reading with ⟨statement, others, below, stackIs⟩
      simp only at stackIs
      subst reading stackIs
      exact Or.inr (Or.inr ⟨allowed, by simp, by simp, _, rfl, ⟨fun reading => (by cases reading), rfl, rfl⟩⟩)
  | startBlock =>
      have reading : last = .normal := reading_of_mayFollow (Or.inr rfl) allowed
      rcases sound reading with ⟨statement, others, below, stackIs⟩
      simp only at stackIs
      subst reading stackIs
      exact Or.inr (Or.inr ⟨allowed, by simp, by simp, _, rfl, ⟨fun reading => (by cases reading), rfl, rfl⟩⟩)
  | normal =>
      right
      by_cases reading : last = .normal
      · rcases sound reading with ⟨statement, others, below, stackIs⟩
        simp only at stackIs
        subst reading stackIs
        exact Or.inr ⟨allowed, by simp, by simp, _, rfl, ⟨fun _ => ⟨_, _, _, rfl⟩, rfl, rfl⟩⟩
      · simp only [if_neg reading]
        cases stack with
        | nil => exact Or.inl ⟨allowed, by simp, rfl, rfl⟩
        | cons top below =>
            exact Or.inr ⟨allowed, by simp, by simp, _, rfl, ⟨fun _ => ⟨_, _, _, rfl⟩, rfl, rfl⟩⟩
  | endBlock =>
      right
      cases stack with
      | nil => exact Or.inl ⟨allowed, by simp, rfl, rfl⟩
      | cons child below =>
          refine Or.inr ⟨allowed, by simp, by simp, ?_⟩
          cases below with
          | nil => exact ⟨_, rfl, ⟨fun reading => (by cases reading), rfl, rfl⟩⟩
          | cons parent below => exact ⟨_, rfl, ⟨fun reading => (by cases reading), rfl, rfl⟩⟩

theorem step_comment {state : ParserState} {token : Token} (skipped : token.type = .comment) :
    state.step token = .goOn state := by
  rw [ParserState.step, if_pos skipped]

/-! ## The states that are reached -/

/-- The types of the tokens may follow each other, and none of them is the end of
the file. -/
def Chained (last : TokenType) (types : List TokenType) : Prop :=
  List.IsChain (fun first second => mayFollow first second = true) (last :: types) ∧ .eof ∉ types

theorem significant_append (before after : List Token) :
    significant (before ++ after) = significant before ++ significant after := by
  rw [significant, List.map_append, List.filter_append]
  rfl

theorem significant_cons_comment {token : Token} (skipped : token.type = .comment)
    (rest : List Token) : significant (token :: rest) = significant rest := by
  simp [significant, skipped]

theorem significant_cons {token : Token} (kept : token.type ≠ .comment) (rest : List Token) :
    significant (token :: rest) = token.type :: significant rest := by
  simp [significant, kept]

/-- A state that is reached has counted the braces of the tokens before it, and the
table has allowed them. -/
theorem afterTokens_moves {before : List Token} {state next : ParserState} (sound : state.Sound)
    (reached : afterTokens before state = some next) :
    next.Sound ∧ Chained state.lastTokenType (significant before) ∧
      (state.lastTokenType :: significant before).getLast? = some next.lastTokenType ∧
      next.stack.length + (significant before).count .endBlock =
        state.stack.length + (significant before).count .startBlock := by
  induction before generalizing state with
  | nil =>
      obtain rfl := Option.some.inj reached
      exact ⟨sound, ⟨.singleton _, List.not_mem_nil⟩, rfl, rfl⟩
  | cons token rest inductionHypothesis =>
      rw [afterTokens] at reached
      by_cases skipped : token.type = .comment
      · rw [step_comment skipped] at reached
        rw [significant_cons_comment skipped]
        exact inductionHypothesis sound reached
      · rw [significant_cons skipped]
        rcases step_cases sound skipped with
          ⟨_, outcome⟩ | ⟨_, _, outcome⟩ | ⟨_, _, _, outcome⟩ | ⟨allowed, goesOn, _, middle, outcome, moves⟩
        · rw [outcome] at reached
          cases reached
        · rw [outcome] at reached
          cases reached
        · rw [outcome] at reached
          cases reached
        · rw [outcome] at reached
          rcases inductionHypothesis moves.sound reached with ⟨nextSound, chained, lastIs, heights⟩
          rw [moves.last] at chained lastIs
          refine ⟨nextSound, ⟨List.isChain_cons_cons.mpr ⟨allowed, chained.1⟩, ?_⟩, ?_, ?_⟩
          · rw [List.mem_cons, not_or]
            exact ⟨goesOn.symm, chained.2⟩
          · rw [List.getLast?_cons_cons]
            exact lastIs
          · have counts := moves.height
            rw [← List.singleton_append, List.count_append, List.count_append]
            omega

/-- The stack becomes empty only behind a closing brace. -/
theorem afterTokens_bottom {before : List Token} {state next : ParserState} (sound : state.Sound)
    (bottom : state.stack = [] -> state.lastTokenType = .endBlock)
    (reached : afterTokens before state = some next) :
    next.stack = [] -> next.lastTokenType = .endBlock := by
  induction before generalizing state with
  | nil => exact Option.some.inj reached ▸ bottom
  | cons token rest inductionHypothesis =>
      rw [afterTokens] at reached
      by_cases skipped : token.type = .comment
      · rw [step_comment skipped] at reached
        exact inductionHypothesis sound bottom reached
      · rcases step_cases sound skipped with
          ⟨_, outcome⟩ | ⟨_, _, outcome⟩ | ⟨_, _, _, outcome⟩ | ⟨_, _, filled, middle, outcome, moves⟩
        · rw [outcome] at reached
          cases reached
        · rw [outcome] at reached
          cases reached
        · rw [outcome] at reached
          cases reached
        · rw [outcome] at reached
          refine inductionHypothesis moves.sound (fun empty => ?_) reached
          have heights := moves.height
          have above := List.length_pos_iff.mpr filled
          rw [empty, List.length_nil] at heights
          rw [moves.last]
          by_contra other
          rw [List.count_singleton, if_neg (by simpa using other)] at heights
          omega

/-! ## Where the stack is empty -/

/-- The token makes the loop call `top()` or `pop()` on an empty stack, or `back()`
on an empty vector. -/
def ParserState.TouchesEmpty (state : ParserState) (token : Token) : Prop :=
  state.Allows token ∧
    match token.type with
    | .normal => state.stack = [] ∨ (state.lastTokenType = .normal ∧ state.stack.head? = some [])
    | .startBlock => state.stack = [] ∨ state.stack.head? = some []
    | .endBlock => state.stack = []
    | _ => False

/-- In a sound state only the stack itself can be empty. -/
theorem touchesEmpty_iff {state : ParserState} {token : Token} (sound : state.Sound)
    (kept : token.type ≠ .comment) :
    state.TouchesEmpty token <-> state.Allows token ∧ token.type ≠ .eof ∧ state.stack = [] := by
  have filled : state.lastTokenType = .normal -> state.stack.head? ≠ some [] := by
    intro reading
    rcases sound reading with ⟨statement, others, below, stackIs⟩
    rw [stackIs]
    simp
  rcases token with ⟨type, value⟩
  rw [ParserState.TouchesEmpty]
  apply and_congr_right
  intro allowed
  rw [ParserState.Allows] at allowed
  simp only at allowed kept ⊢
  cases type with
  | start => cases allowed
  | comment => exact absurd rfl kept
  | error => cases allowed
  | eof => simp
  | endBlock => simp
  | normal =>
      constructor
      · rintro (empty | ⟨reading, hollow⟩)
        · exact ⟨by simp, empty⟩
        · exact absurd hollow (filled reading)
      · exact fun empty => Or.inl empty.2
  | statementEnd =>
      have reading : state.lastTokenType = .normal := by
        cases last : state.lastTokenType <;> rw [last] at allowed <;> first | rfl | cases allowed
      rcases sound reading with ⟨statement, others, below, stackIs⟩
      rw [stackIs]
      simp
  | startBlock =>
      have reading : state.lastTokenType = .normal := by
        cases last : state.lastTokenType <;> rw [last] at allowed <;> first | rfl | cases allowed
      constructor
      · rintro (empty | hollow)
        · exact ⟨by simp, empty⟩
        · exact absurd hollow (filled reading)
      · exact fun empty => Or.inl empty.2

/-- The step of the model without meaning is the one that touches what is empty. -/
theorem step_undefined_iff {state : ParserState} {token : Token} (sound : state.Sound) :
    state.step token = .undefined <-> state.TouchesEmpty token := by
  by_cases skipped : token.type = .comment
  · rw [step_comment skipped, ParserState.TouchesEmpty, skipped]
    simp
  · rw [touchesEmpty_iff sound skipped]
    rcases step_cases sound skipped with
      ⟨refused, outcome⟩ | ⟨_, ended, outcome⟩ | ⟨allowed, goesOn, empty, outcome⟩ |
        ⟨_, _, filled, _, outcome, _⟩
    · simp [outcome, refused]
    · simp [outcome, ended]
    · simp [outcome, allowed, goesOn, empty]
    · simp [outcome, filled]

/-- A word or a brace that the table allows stands behind more closing than
opening braces. -/
def Surplus (types : List TokenType) : Prop :=
  Exists fun before : List TokenType => Exists fun next : TokenType =>
    Exists fun rest : List TokenType =>
      types = before ++ next :: rest ∧ Chained .start (before ++ [next]) ∧
        before.count .startBlock < before.count .endBlock

theorem chained_append_singleton (last : TokenType) (before : List TokenType) (next : TokenType) :
    Chained last (before ++ [next]) <->
      Chained last before ∧
        (forall final, (last :: before).getLast? = some final -> mayFollow final next = true) ∧
        next ≠ .eof := by
  rw [Chained, Chained, ← List.cons_append, List.isChain_append, List.mem_append,
    List.mem_singleton, not_or]
  constructor
  · rintro ⟨⟨chain, _, joined⟩, noEof, notEof⟩
    exact ⟨⟨chain, noEof⟩, fun final lastIs => joined final lastIs next rfl, Ne.symm notEof⟩
  · rintro ⟨⟨chain, noEof⟩, joined, notEof⟩
    refine ⟨⟨chain, .singleton _, ?_⟩, noEof, Ne.symm notEof⟩
    intro final lastIs first firstIs
    obtain rfl := Option.some.inj firstIs
    exact joined final lastIs

/-- Types are split where tokens can be split. -/
theorem exists_tokens_of_significant {sequence : List Token} {before rest : List TokenType}
    {next : TokenType} (typesAre : significant sequence = before ++ next :: rest) :
    Exists fun first : List Token => Exists fun token : Token => Exists fun others : List Token =>
      sequence = first ++ token :: others ∧ significant first = before ∧ token.type = next ∧
        token.type ≠ .comment := by
  induction sequence generalizing before with
  | nil => simp [significant] at typesAre
  | cons token others inductionHypothesis =>
      by_cases skipped : token.type = .comment
      · rw [significant_cons_comment skipped] at typesAre
        rcases inductionHypothesis typesAre with ⟨first, found, after, split, firstIs, typeIs, kept⟩
        refine ⟨token :: first, found, after, ?_, ?_, typeIs, kept⟩
        · rw [List.cons_append, ← split]
        · rw [significant_cons_comment skipped, firstIs]
      · rw [significant_cons skipped] at typesAre
        cases before with
        | nil => exact ⟨[], token, others, rfl, rfl, (List.cons.inj typesAre).1, skipped⟩
        | cons type before =>
            rw [List.cons_append] at typesAre
            rcases List.cons.inj typesAre with ⟨typeHere, restAre⟩
            rcases inductionHypothesis restAre with ⟨first, found, after, split, firstIs, typeIs, kept⟩
            refine ⟨token :: first, found, after, ?_, ?_, typeIs, kept⟩
            · rw [List.cons_append, ← split]
            · rw [significant_cons skipped, firstIs, typeHere]

theorem chained_front {last : TokenType} {before rest : List TokenType} {next : TokenType}
    (chained : Chained last (before ++ next :: rest)) : Chained last (before ++ [next]) := by
  rw [← List.singleton_append, ← List.append_assoc] at chained
  rcases chained with ⟨chain, noEof⟩
  rw [← List.cons_append] at chain
  exact ⟨(List.isChain_append.mp chain).1, fun member => noEof (List.mem_append_left _ member)⟩

theorem Comes.append {sequence : List Token} {start state : ParserState} {token : Token}
    (comes : Comes sequence start state token) (more : List Token) :
    Comes (sequence ++ more) start state token := by
  rcases comes with ⟨before, rest, rfl, reached⟩
  exact ⟨before, rest ++ more, by rw [List.append_assoc, List.cons_append], reached⟩

theorem Comes.sound {sequence : List Token} {start state : ParserState} {token : Token}
    (comes : Comes sequence start state token) (sound : start.Sound) : state.Sound := by
  rcases comes with ⟨before, _, _, reached⟩
  exact (afterTokens_moves sound reached).1

/-- In front of tokens that the table allows, only an empty stack ends the loop. -/
theorem touches_of_ended {sequence : List Token} {start : ParserState} (sound : start.Sound)
    (chained : Chained start.lastTokenType (significant sequence))
    (ended : afterTokens sequence start = none) :
    Exists fun state : ParserState => Exists fun token : Token =>
      Comes sequence start state token ∧ state.TouchesEmpty token := by
  rcases exists_of_afterTokens_none ended with ⟨state, token, comes, stops⟩
  refine ⟨state, token, comes, ?_⟩
  have stateSound := comes.sound sound
  rcases comes with ⟨front, back, rfl, reached⟩
  have kept : token.type ≠ .comment := fun skipped => stops state (step_comment skipped)
  rcases afterTokens_moves sound reached with ⟨_, _, lastIs, _⟩
  rw [significant_append, significant_cons kept] at chained
  rcases (chained_append_singleton _ _ _).mp (chained_front chained) with ⟨_, joined, goesOn⟩
  have allowed : state.Allows token := joined _ lastIs
  rcases step_cases stateSound kept with
    ⟨refused, _⟩ | ⟨_, atEnd, _⟩ | ⟨_, _, empty, _⟩ | ⟨_, _, _, following, outcome, _⟩
  · exact absurd allowed refused
  · exact absurd atEnd goesOn
  · exact (touchesEmpty_iff stateSound kept).mpr ⟨allowed, goesOn, empty⟩
  · exact absurd outcome (stops following)

/-- From the start of a text, what is empty is touched exactly where the closing
braces prevail. -/
theorem touches_iff_surplus (config : NginxConfig) (sequence : List Token) :
    (Exists fun state : ParserState => Exists fun token : Token =>
      Comes sequence (.initial config) state token ∧ state.TouchesEmpty token) <->
      Surplus (significant sequence) := by
  have initialSound := initial_sound config
  have bottom : (ParserState.initial config).stack.length = 1 := rfl
  constructor
  · rintro ⟨state, token, ⟨before, rest, rfl, reached⟩, touches⟩
    rcases afterTokens_moves initialSound reached with ⟨sound, chained, lastIs, heights⟩
    have kept : token.type ≠ .comment := by
      intro skipped
      rw [ParserState.TouchesEmpty, skipped] at touches
      exact touches.2
    rcases (touchesEmpty_iff sound kept).mp touches with ⟨allowed, goesOn, empty⟩
    refine ⟨significant before, token.type, significant rest, ?_, ?_, ?_⟩
    · rw [significant_append, significant_cons kept]
    · rw [chained_append_singleton]
      refine ⟨chained, ?_, goesOn⟩
      intro final finalIs
      have same : (ParserState.initial config).lastTokenType = .start := rfl
      rw [same, finalIs] at lastIs
      rw [Option.some.inj lastIs]
      exact allowed
    · rw [empty, bottom, List.length_nil] at heights
      omega
  · rintro ⟨before, next, rest, typesAre, chained, prevail⟩
    rcases exists_tokens_of_significant typesAre with ⟨first, token, others, rfl, rfl, rfl, kept⟩
    rcases (chained_append_singleton _ _ _).mp chained with ⟨firstChained, joined, goesOn⟩
    cases arrived : afterTokens first (.initial config) with
    | some state =>
        rcases afterTokens_moves initialSound arrived with ⟨sound, _, lastIs, heights⟩
        have empty : state.stack = [] := List.length_eq_zero_iff.mp (by omega)
        exact ⟨state, token, ⟨first, others, rfl, arrived⟩,
          (touchesEmpty_iff sound kept).mpr ⟨joined _ lastIs, goesOn, empty⟩⟩
    | none =>
        rcases touches_of_ended initialSound firstChained arrived with
          ⟨state, early, comes, touches⟩
        exact ⟨state, early, comes.append _, touches⟩

/-- The loop reads the tokens to their end exactly when the table allows them and
no empty stack is touched on the way. -/
theorem afterTokens_isSome_iff (config : NginxConfig) (sequence : List Token) :
    (afterTokens sequence (.initial config)).isSome <->
      Chained .start (significant sequence) ∧ ¬ Surplus (significant sequence) := by
  have initialSound := initial_sound config
  rw [← touches_iff_surplus config sequence]
  constructor
  · intro read
    rcases Option.isSome_iff_exists.mp read with ⟨final, reached⟩
    refine ⟨(afterTokens_moves initialSound reached).2.1, ?_⟩
    rintro ⟨state, token, comes, touches⟩
    have undefined := (step_undefined_iff (comes.sound initialSound)).mpr touches
    rcases comes with ⟨before, rest, rfl, arrived⟩
    rw [afterTokens_append, arrived, Option.bind_some, afterTokens, undefined] at reached
    cases reached
  · rintro ⟨chained, never⟩
    by_contra ended
    rw [Option.not_isSome_iff_eq_none] at ended
    exact never (touches_of_ended initialSound chained ended)

/-- `Parse` never touches an empty stack or vector exactly when no word and no brace
stands behind a surplus of closing braces. -/
theorem parse_touchesNothing_iff (config : NginxConfig) (text : Text) :
    (forall state token, Comes (tokens text) (.initial config) state token ->
      ¬ state.TouchesEmpty token) <->
      ¬ Surplus (significant (tokens text)) := by
  rw [← touches_iff_surplus config (tokens text)]
  constructor
  · rintro never ⟨state, token, comes, touches⟩
    exact never state token comes touches
  · intro never state token comes touches
    exact never ⟨state, token, comes, touches⟩

/-- A statement behind a closing brace too many is added to the top of an empty
stack. -/
theorem surplusBrace_touchesEmpty :
    Exists fun state : ParserState => Exists fun token : Token =>
      Comes (tokens "a; \x7d b;".toList) (.initial .empty) state token ∧
        state.TouchesEmpty token := by
  refine ⟨⟨.endBlock, [], [⟨["a".toList], none⟩]⟩, ⟨.normal, "b".toList⟩,
    ⟨[⟨.normal, "a".toList⟩, ⟨.statementEnd, ";".toList⟩, ⟨.endBlock, ['}']⟩],
      [⟨.statementEnd, ";".toList⟩, ⟨.eof, []⟩], ?_, ?_⟩, rfl, Or.inl rfl⟩
  · decide
  · rfl

/-- The loop faults exactly in a round without meaning. -/
theorem parseTokens_error_iff (sequence : List Token) (state : ParserState) :
    parseTokens sequence state = .error .undefinedBehavior <->
      Exists fun next : ParserState => Exists fun token : Token =>
        Comes sequence state next token ∧ next.step token = .undefined := by
  induction sequence generalizing state with
  | nil =>
      refine ⟨fun impossible => (by cases impossible), ?_⟩
      rintro ⟨next, token, ⟨before, rest, split, _⟩, _⟩
      simp at split
  | cons token rest inductionHypothesis =>
      rw [parseTokens]
      constructor
      · intro faults
        cases outcome : state.step token with
        | finished verdict =>
            rw [outcome] at faults
            cases faults
        | undefined => exact ⟨state, token, ⟨[], rest, rfl, rfl⟩, outcome⟩
        | goOn next =>
            rw [outcome] at faults
            rcases (inductionHypothesis next).mp faults with
              ⟨final, last, ⟨before, after, rfl, reached⟩, undefined⟩
            refine ⟨final, last, ⟨token :: before, after, rfl, ?_⟩, undefined⟩
            rw [afterTokens, outcome]
            exact reached
      · rintro ⟨final, last, ⟨before, after, split, reached⟩, undefined⟩
        cases before with
        | nil =>
            obtain ⟨rfl, rfl⟩ := List.cons.inj split
            obtain rfl := Option.some.inj reached
            rw [undefined]
        | cons first before =>
            obtain ⟨rfl, rfl⟩ := List.cons.inj split
            rw [afterTokens] at reached
            cases outcome : state.step token with
            | finished verdict =>
                rw [outcome] at reached
                cases reached
            | undefined => rfl
            | goOn next =>
                rw [outcome] at reached
                exact (inductionHypothesis next).mpr ⟨final, last, ⟨before, after, rfl, reached⟩, undefined⟩

theorem parseTokens_fault {sequence : List Token} {state : ParserState} {fault : Fault}
    (faults : parseTokens sequence state = .error fault) : fault = .undefinedBehavior := by
  induction sequence generalizing state with
  | nil => cases faults
  | cons token rest inductionHypothesis =>
      rw [parseTokens] at faults
      cases outcome : state.step token with
      | goOn next =>
          rw [outcome] at faults
          exact inductionHypothesis faults
      | finished verdict =>
          rw [outcome] at faults
          cases faults
      | undefined =>
          rw [outcome] at faults
          injection faults with same
          exact same.symm

theorem parse_error_iff (config : NginxConfig) (text : Text) :
    parseInto config text = .error .undefinedBehavior <-> Surplus (significant (tokens text)) := by
  rw [parseInto, parseTokens_error_iff, ← touches_iff_surplus config]
  constructor
  · rintro ⟨state, token, comes, undefined⟩
    exact ⟨state, token, comes, (step_undefined_iff (comes.sound (initial_sound config))).mp undefined⟩
  · rintro ⟨state, token, comes, touches⟩
    exact ⟨state, token, comes, (step_undefined_iff (comes.sound (initial_sound config))).mpr touches⟩

end Config
end Webserver
