import Webserver.Config.ParserRuns

namespace Webserver
namespace Config

/-!
# The words of the tree that is being built

Whatever becomes of a text, the tree that `Parse` leaves behind holds the words that
its loop has read, in the order of the text.  Blocks that are still open count with
the statement that opened them.
-/

/-- The words of all statements in the order of the text. -/
def NginxConfig.words : NginxConfig -> List Text
  | empty => []
  | simple tokens next => tokens ++ next.words
  | block tokens child next => tokens ++ (child.words ++ next.words)

def NginxConfigStatement.words (statement : NginxConfigStatement) : List Text :=
  statement.tokens ++ (statement.childBlock.elim [] NginxConfig.words)

/-- The words of an open block. -/
def frameWords (frame : Frame) : List Text := (NginxConfig.ofStatements frame.reverse).words

/-- The words of the open blocks, from the bottom to the top. -/
def stackWords : List Frame -> List Text
  | [] => []
  | top :: below => stackWords below ++ frameWords top

def ParserState.words (state : ParserState) : List Text :=
  match state.stack with
  | [] => frameWords state.popped
  | top :: below => stackWords (top :: below)

theorem frameWords_nil : frameWords [] = [] := rfl

theorem words_ofStatements_append (first second : List NginxConfigStatement) :
    (NginxConfig.ofStatements (first ++ second)).words =
      (NginxConfig.ofStatements first).words ++ (NginxConfig.ofStatements second).words := by
  induction first with
  | nil => rfl
  | cons statement first inductionHypothesis =>
      rcases statement with ⟨tokens, child | child⟩
      · rw [List.cons_append, NginxConfig.ofStatements, NginxConfig.ofStatements, NginxConfig.words,
          NginxConfig.words, inductionHypothesis, List.append_assoc]
      · rw [List.cons_append, NginxConfig.ofStatements, NginxConfig.ofStatements, NginxConfig.words,
          NginxConfig.words, inductionHypothesis, List.append_assoc, List.append_assoc]

theorem frameWords_cons (statement : NginxConfigStatement) (others : Frame) :
    frameWords (statement :: others) = frameWords others ++ statement.words := by
  rw [frameWords, List.reverse_cons, words_ofStatements_append, frameWords]
  rcases statement with ⟨tokens, child | child⟩ <;>
    simp [NginxConfig.ofStatements, NginxConfig.words, NginxConfigStatement.words]

/-- A statement below the top of the stack waits for its block, and one that is being
read has none yet. -/
structure ParserState.Building (state : ParserState) : Prop where
  reading : state.lastTokenType = .normal ->
    Exists fun statement : NginxConfigStatement => Exists fun others : Frame =>
      Exists fun below : List Frame =>
        state.stack = (statement :: others) :: below ∧ statement.childBlock = none
  waiting : forall frame, frame ∈ state.stack.tail ->
    Exists fun statement : NginxConfigStatement => Exists fun others : Frame =>
      frame = statement :: others ∧ statement.childBlock = some .empty

theorem initial_building (config : NginxConfig) : (ParserState.initial config).Building where
  reading impossible := by cases impossible
  waiting frame member := by cases member

theorem ParserState.Building.sound {state : ParserState} (building : state.Building) :
    state.Sound := by
  intro reading
  rcases building.reading reading with ⟨statement, others, below, stackIs, _⟩
  exact ⟨statement, others, below, stackIs⟩

/-- Closing a block puts its words behind those of its statement. -/
theorem frameWords_closeFrame (child : Frame) {statement : NginxConfigStatement} (others : Frame)
    (waits : statement.childBlock = some .empty) :
    frameWords (closeFrame child (statement :: others)) =
      frameWords (statement :: others) ++ frameWords child := by
  rw [closeFrame, frameWords_cons, frameWords_cons, NginxConfigStatement.words,
    NginxConfigStatement.words, waits, List.append_assoc, List.append_assoc]
  simp [NginxConfig.words, frameWords]

theorem frameWords_collapse {below : List Frame} (top : Frame)
    (waiting : forall frame, frame ∈ below ->
      Exists fun statement : NginxConfigStatement => Exists fun others : Frame =>
        frame = statement :: others ∧ statement.childBlock = some .empty) :
    frameWords (collapse top below) = stackWords (top :: below) := by
  induction below generalizing top with
  | nil => rfl
  | cons parent rest inductionHypothesis =>
      rcases waiting parent List.mem_cons_self with ⟨statement, others, rfl, waits⟩
      rw [collapse, inductionHypothesis _ (fun frame later => waiting frame (List.mem_cons_of_mem _ later))]
      simp only [stackWords, frameWords_closeFrame top others waits, List.append_assoc]

/-- The tree holds the words of the open blocks. -/
theorem words_config {state : ParserState} (building : state.Building) :
    state.config.words = state.words := by
  rcases state with ⟨last, stack, popped⟩
  cases stack with
  | nil => rfl
  | cons top below => exact frameWords_collapse top building.waiting

/-! ## What the operations on the stack add -/

/-- A new block has no words yet, and the statement below it waits. -/
theorem words_openBlock {state opened : ParserState} (building : state.Building)
    (isReading : state.lastTokenType = .normal) (opens : state.openBlock = some opened) :
    ({ opened with lastTokenType := .startBlock } : ParserState).Building ∧
      opened.words = state.words := by
  rcases state with ⟨last, stack, popped⟩
  rcases building.reading isReading with ⟨statement, others, below, stackIs, none⟩
  simp only at stackIs
  subst stackIs
  injection opens with same
  subst same
  refine ⟨⟨fun impossible => (by cases impossible), ?_⟩, ?_⟩
  · intro frame member
    rcases List.mem_cons.mp member with rfl | deeper
    · exact ⟨_, others, rfl, rfl⟩
    · exact building.waiting frame deeper
  · simp [ParserState.words, stackWords, frameWords_nil, frameWords_cons,
      NginxConfigStatement.words, none, NginxConfig.words]

/-- A word goes to the statement that is being read. -/
theorem words_pushToken {state pushed : ParserState} {word : Text} (building : state.Building)
    (isReading : state.lastTokenType = .normal) (pushes : state.pushToken word = some pushed) :
    ({ pushed with lastTokenType := .normal } : ParserState).Building ∧
      pushed.words = state.words ++ [word] := by
  rcases state with ⟨last, stack, popped⟩
  rcases building.reading isReading with ⟨statement, others, below, stackIs, none⟩
  simp only at stackIs
  subst stackIs
  injection pushes with same
  subst same
  refine ⟨⟨fun _ => ⟨_, others, below, rfl, none⟩, building.waiting⟩, ?_⟩
  simp [ParserState.words, stackWords, frameWords_cons, NginxConfigStatement.words, none]

/-- The first word of a statement comes with a new statement for it. -/
theorem words_newStatement {state pushed : ParserState} {word : Text} (building : state.Building)
    (pushes : state.newStatement.bind (ParserState.pushToken word) = some pushed) :
    ({ pushed with lastTokenType := .normal } : ParserState).Building ∧
      pushed.words = state.words ++ [word] := by
  rcases state with ⟨last, stack, popped⟩
  cases stack with
  | nil => cases pushes
  | cons top below =>
      injection pushes with same
      subst same
      refine ⟨⟨fun _ => ⟨_, top, below, rfl, rfl⟩, building.waiting⟩, ?_⟩
      simp [ParserState.words, stackWords, frameWords_cons, NginxConfigStatement.words]

/-- A block that is closed takes its words to the statement that opened it. -/
theorem words_popBlock {state closed : ParserState} (building : state.Building)
    (closes : state.popBlock = some closed) :
    ({ closed with lastTokenType := .endBlock } : ParserState).Building ∧
      closed.words = state.words := by
  rcases state with ⟨last, stack, popped⟩
  match stack, closes with
  | [root], closes =>
      injection closes with same
      subst same
      exact ⟨⟨fun impossible => (by cases impossible), fun frame member => by cases member⟩,
        by simp [ParserState.words, stackWords]⟩
  | child :: parent :: below, closes =>
      rcases building.waiting parent List.mem_cons_self with ⟨statement, others, rfl, waits⟩
      injection closes with same
      subst same
      refine ⟨⟨fun impossible => (by cases impossible), ?_⟩, ?_⟩
      · exact fun frame deeper => building.waiting frame (List.mem_cons_of_mem _ deeper)
      · simp [ParserState.words, stackWords, frameWords_closeFrame child others waits]

/-- A round that goes on keeps what its operation leaves behind. -/
theorem goOn_of_after {type : TokenType} {left : Option ParserState} {next : ParserState}
    (goesOn : Round.after type left = .goOn next) :
    Exists fun changed : ParserState =>
      left = some changed ∧ next = { changed with lastTokenType := type } := by
  cases left with
  | none => cases goesOn
  | some changed =>
      injection goesOn with same
      exact ⟨changed, rfl, same.symm⟩

/-- A round adds the word that it reads, and nothing else. -/
theorem words_of_step {state next : ParserState} {token : Token} (building : state.Building)
    (goesOn : state.step token = .goOn next) :
    next.Building ∧
      next.words = state.words ++ (if token.type = .normal then [token.value] else []) := by
  rcases token with ⟨type, value⟩
  rw [ParserState.step] at goesOn
  by_cases skipped : type = .comment
  · rw [if_pos skipped] at goesOn
    injection goesOn with same
    subst same
    exact ⟨building, by simp [skipped]⟩
  rw [if_neg skipped] at goesOn
  by_cases refused : mayFollow state.lastTokenType type = false
  · rw [if_pos refused] at goesOn
    cases goesOn
  rw [if_neg refused] at goesOn
  cases type with
  | start => cases goesOn
  | comment => exact absurd rfl skipped
  | error => cases goesOn
  | eof => cases goesOn
  | statementEnd =>
      injection goesOn with same
      subst same
      exact ⟨⟨fun impossible => (by cases impossible), building.waiting⟩, (List.append_nil _).symm⟩
  | startBlock =>
      have isReading := reading_of_mayFollow (Or.inr rfl) (by simpa using refused)
      rcases goOn_of_after goesOn with ⟨opened, opens, rfl⟩
      rcases words_openBlock building isReading opens with ⟨onward, wordsAre⟩
      exact ⟨onward, wordsAre.trans (List.append_nil _).symm⟩
  | normal =>
      rcases goOn_of_after goesOn with ⟨pushed, pushes, rfl⟩
      by_cases isReading : state.lastTokenType = .normal
      · rw [if_pos isReading] at pushes
        exact words_pushToken building isReading pushes
      · rw [if_neg isReading] at pushes
        exact words_newStatement building pushes
  | endBlock =>
      rcases goOn_of_after goesOn with ⟨closed, closes, rfl⟩
      rcases words_popBlock building closes with ⟨onward, wordsAre⟩
      exact ⟨onward, wordsAre.trans (List.append_nil _).symm⟩

/-- The words that have been read stay at the beginning. -/
theorem words_of_run {sequence : List Token} {state : ParserState} (building : state.Building)
    {verdict : Bool} {config : NginxConfig}
    (parsed : parseTokens sequence state = .ok (verdict, config)) :
    state.words <+: config.words := by
  induction sequence generalizing state with
  | nil =>
      obtain ⟨_, rfl⟩ := Prod.mk.inj (Except.ok.inj parsed)
      rw [words_config building]
  | cons token rest inductionHypothesis =>
      rw [parseTokens] at parsed
      cases outcome : state.step token with
      | goOn next =>
          rw [outcome] at parsed
          rcases words_of_step building outcome with ⟨onward, wordsAre⟩
          have begins := inductionHypothesis onward parsed
          rw [wordsAre] at begins
          exact (List.prefix_append _ _).trans begins
      | finished accepted =>
          rw [outcome] at parsed
          obtain ⟨_, rfl⟩ := Prod.mk.inj (Except.ok.inj parsed)
          rw [words_config building]
      | undefined =>
          rw [outcome] at parsed
          cases parsed

end Config
end Webserver
