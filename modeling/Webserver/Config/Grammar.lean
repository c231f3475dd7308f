import Webserver.Config.Parser
import Mathlib.Data.List.Chain

namespace Webserver
namespace Config

/-!
# The grammar of `Parse`

A statement is one or more words, followed by `;` or by a block of statements in
braces.  The loop of `Parse` recognizes such sequences with a table of
transitions and the height of its stack.  It looks at the height neither at the
end of the file nor before it pops the bottom of the stack.
-/

/-! ## Grammar -/

/-- A sequence of statements. -/
inductive Statements : List TokenType -> Prop
  | none : Statements []
  | simple (words : Nat) {others : List TokenType} (othersRead : Statements others) :
      Statements (List.replicate (words + 1) .normal ++ .statementEnd :: others)
  | block (words : Nat) {inner others : List TokenType}
      (innerRead : Statements inner) (othersRead : Statements others) :
      Statements (List.replicate (words + 1) .normal ++
        .startBlock :: (inner ++ .endBlock :: others))

/-- The types of a token sequence without its comments. -/
def significant (sequence : List Token) : List TokenType :=
  (sequence.map Token.type).filter (fun type => !(type == .comment))

/-- The text reads to its end, and its tokens are a nonempty sequence of
statements. -/
def Valid (text : Text) : Prop :=
  Exists fun sentence : List TokenType =>
    significant (tokens text) = sentence ++ [.eof] ∧ sentence ≠ [] ∧ Statements sentence

/-! ## The loop without its statements -/

/-- The verdict of the loop from the height of its stack and the last token. -/
def recognize : Nat -> TokenType -> List TokenType -> Except Fault Bool
  | _, _, [] => .ok false
  | height, last, next :: rest =>
      if mayFollow last next = false then .ok false
      else
        match next with
        | .normal =>
            if height = 0 then .error .undefinedBehavior else recognize height .normal rest
        | .statementEnd => recognize height .statementEnd rest
        | .startBlock =>
            if height = 0 then .error .undefinedBehavior
            else recognize (height + 1) .startBlock rest
        | .endBlock =>
            if height = 0 then .error .undefinedBehavior
            else recognize (height - 1) .endBlock rest
        | .eof => .ok true
        | _ => .ok false

/-- A statement that is being read is on top of the stack. -/
def ParserState.Sound (state : ParserState) : Prop :=
  state.lastTokenType = .normal ->
    Exists fun statement : NginxConfigStatement => Exists fun others : Frame =>
      Exists fun below : List Frame => state.stack = (statement :: others) :: below

theorem initial_sound (config : NginxConfig) : (ParserState.initial config).Sound := by
  intro reading
  cases reading

/-- Only a word comes before the end of a statement or its block. -/
theorem reading_of_mayFollow {last type : TokenType} (ends : type = .statementEnd ∨ type = .startBlock)
    (allowed : mayFollow last type = true) : last = .normal := by
  rcases ends with rfl | rfl
  · simpa [mayFollow] using allowed
  · simpa [mayFollow] using allowed

/-- A round of the loop agrees with a verdict: it gives that verdict, or goes on to
a sound state from which the rest of the tokens gives it. -/
def Round.Agrees (rest : List TokenType) (verdict : Except Fault Bool) : Round -> Prop
  | goOn next =>
      next.Sound ∧ verdict = recognize next.stack.length next.lastTokenType rest
  | finished accepted => verdict = .ok accepted
  | undefined => verdict = .error .undefinedBehavior

/-- One round of the loop keeps the state sound and moves it as `recognize`
says. -/
theorem step_recognize {state : ParserState} {token : Token} (sound : state.Sound)
    (kept : token.type ≠ .comment) (rest : List TokenType) :
    (state.step token).Agrees rest
      (recognize state.stack.length state.lastTokenType (token.type :: rest)) := by
  rcases state with ⟨last, stack, popped⟩
  rcases token with ⟨type, value⟩
  simp only [ParserState.step, recognize] at kept ⊢
  rw [if_neg kept]
  by_cases refused : mayFollow last type = false
  · rw [if_pos refused, if_pos refused]
    rfl
  rw [if_neg refused, if_neg refused]
  cases type with
  | start => rfl
  | comment => exact absurd rfl kept
  | eof => rfl
  | error => rfl
  | statementEnd => exact ⟨fun reading => (by cases reading), rfl⟩
  | normal =>
      by_cases reading : last = .normal
      · rcases sound reading with ⟨statement, others, below, stackIs⟩
        simp only at stackIs
        subst reading stackIs
        exact ⟨fun _ => ⟨_, _, _, rfl⟩, rfl⟩
      · simp only [if_neg reading]
        cases stack with
        | nil => rfl
        | cons top below => exact ⟨fun _ => ⟨_, _, _, rfl⟩, rfl⟩
  | startBlock =>
      have reading : last = .normal := reading_of_mayFollow (Or.inr rfl) (by simpa using refused)
      rcases sound reading with ⟨statement, others, below, stackIs⟩
      simp only at stackIs
      subst reading stackIs
      exact ⟨fun reading => (by cases reading), rfl⟩
  | endBlock =>
      cases stack with
      | nil => rfl
      | cons child below =>
          cases below with
          | nil => exact ⟨fun reading => (by cases reading), rfl⟩
          | cons parent below => exact ⟨fun reading => (by cases reading), rfl⟩

/-- The loop's verdict depends on the types of the tokens only. -/
theorem parseTokens_verdict (sequence : List Token) {state : ParserState}
    (sound : state.Sound) :
    (parseTokens sequence state).map Prod.fst =
      recognize state.stack.length state.lastTokenType (significant sequence) := by
  induction sequence generalizing state with
  | nil => rfl
  | cons token rest inductionHypothesis =>
      by_cases dropped : token.type = .comment
      · have skipped : state.step token = .goOn state := by
          rw [ParserState.step, if_pos dropped]
        rw [parseTokens, skipped]
        simpa [significant, dropped] using inductionHypothesis sound
      · have typesAre : significant (token :: rest) = token.type :: significant rest := by
          simp [significant, dropped]
        have moved := step_recognize sound dropped (significant rest)
        rw [parseTokens, typesAre]
        cases outcome : state.step token with
        | goOn next =>
            rw [outcome] at moved
            rw [moved.2, ← inductionHypothesis moved.1]
        | finished verdict =>
            rw [outcome] at moved
            exact moved.symm
        | undefined =>
            rw [outcome] at moved
            exact moved.symm

theorem parse_verdict (text : Text) :
    (parse text).map Prod.fst = recognize 1 .start (significant (tokens text)) :=
  parseTokens_verdict (tokens text) (initial_sound .empty)

/-! ## Balanced sequences -/

/-- The table of transitions together with a check of the height. -/
def balanced : Nat -> TokenType -> List TokenType -> Bool
  | _, _, [] => false
  | height, last, next :: rest =>
      mayFollow last next &&
        match next with
        | .normal => decide (height ≠ 0) && balanced height .normal rest
        | .statementEnd => decide (height ≠ 0) && balanced height .statementEnd rest
        | .startBlock => decide (height ≠ 0) && balanced (height + 1) .startBlock rest
        | .endBlock => decide (1 < height) && balanced (height - 1) .endBlock rest
        | .eof => decide (height = 1)
        | _ => false

theorem balanced_zero (last : TokenType) (types : List TokenType) :
    balanced 0 last types = false := by
  cases types with
  | nil => rfl
  | cons next rest => cases next <;> simp [balanced]

/-- The types after which a statement may begin. -/
def Settled (last : TokenType) : Prop :=
  last = .start ∨ last = .statementEnd ∨ last = .startBlock ∨ last = .endBlock

theorem mayFollow_normal {last : TokenType} (settled : Settled last) :
    mayFollow last .normal = true := by
  rcases settled with rfl | rfl | rfl | rfl <;> rfl

/-- A run of words leaves the height alone. -/
theorem balanced_words {height : Nat} (inside : height ≠ 0) {last : TokenType}
    (allowed : mayFollow last .normal = true) (words : Nat) (rest : List TokenType) :
    balanced height last (List.replicate (words + 1) .normal ++ rest) =
      balanced height .normal rest := by
  induction words generalizing last with
  | zero => simp [balanced, allowed, inside]
  | succ words inductionHypothesis =>
      rw [List.replicate_succ, List.cons_append, balanced, inductionHypothesis rfl]
      simp [allowed, inside]

/-- Statements are read through to the token after them. -/
theorem balanced_statements {sentence : List TokenType} (isRead : Statements sentence)
    {height : Nat} (inside : height ≠ 0) {last : TokenType} (settled : Settled last) :
    Exists fun after : TokenType =>
      (sentence = [] ∧ after = last ∨ after = .statementEnd ∨ after = .endBlock) ∧
      forall rest : List TokenType,
        balanced height last (sentence ++ rest) = balanced height after rest := by
  induction isRead generalizing height last with
  | none => exact ⟨last, Or.inl ⟨rfl, rfl⟩, fun _ => rfl⟩
  | @simple words others _ inductionHypothesis =>
      rcases inductionHypothesis inside (Or.inr (Or.inl rfl)) with ⟨after, afterIs, through⟩
      refine ⟨after, Or.inr ?_, fun rest => ?_⟩
      · rcases afterIs with ⟨_, same⟩ | ended
        · exact Or.inl same
        · exact ended
      · rw [List.append_assoc, balanced_words inside (mayFollow_normal settled),
          List.cons_append, balanced]
        simp [mayFollow, inside, through]
  | @block words inner others _ _ innerHypothesis othersHypothesis =>
      rcases innerHypothesis (Nat.succ_ne_zero height) (Or.inr (Or.inr (Or.inl rfl))) with
        ⟨innerAfter, innerAfterIs, throughInner⟩
      rcases othersHypothesis inside (Or.inr (Or.inr (Or.inr rfl))) with ⟨after, afterIs, through⟩
      have closes : mayFollow innerAfter .endBlock = true := by
        rcases innerAfterIs with ⟨_, rfl⟩ | rfl | rfl <;> rfl
      refine ⟨after, Or.inr ?_, fun rest => ?_⟩
      · rcases afterIs with ⟨_, same⟩ | ended
        · exact Or.inr same
        · exact ended
      · rw [List.append_assoc, balanced_words inside (mayFollow_normal settled),
          List.cons_append, balanced, List.append_assoc, throughInner, List.cons_append,
          balanced, closes, Nat.succ_eq_add_one, Nat.add_sub_cancel, through]
        have taller : 1 < height + 1 := by omega
        simp [mayFollow, inside, taller]

/-- A word that may be read belongs to a run of words which ends a statement or
begins a block. -/
theorem words_of_balanced {height : Nat} {types : List TokenType}
    (isBalanced : balanced height .normal types = true) :
    Exists fun words : Nat => Exists fun rest : List TokenType =>
      types = List.replicate words .normal ++ .statementEnd :: rest ∧
          balanced height .statementEnd rest = true ∨
        types = List.replicate words .normal ++ .startBlock :: rest ∧
          balanced (height + 1) .startBlock rest = true := by
  induction types with
  | nil => cases isBalanced
  | cons next rest inductionHypothesis =>
      cases next with
      | normal =>
          rcases inductionHypothesis (by simp_all [balanced, mayFollow]) with
            ⟨words, others, isRead⟩
          refine ⟨words + 1, others, ?_⟩
          simpa [List.replicate_succ] using isRead
      | statementEnd =>
          exact ⟨0, rest, Or.inl ⟨rfl, (by simp_all [balanced, mayFollow])⟩⟩
      | startBlock =>
          exact ⟨0, rest, Or.inr ⟨rfl, (by simp_all [balanced, mayFollow])⟩⟩
      | _ => cases isBalanced

/-- A balanced sequence is a sequence of statements, then the end of the file at
the height of the config or the end of the block that contains them. -/
theorem statements_of_balanced {height : Nat} {last : TokenType} (settled : Settled last)
    {types : List TokenType} (isBalanced : balanced height last types = true) :
    Exists fun sentence : List TokenType => Exists fun rest : List TokenType =>
      Statements sentence ∧
        (types = sentence ++ .eof :: rest ∧ height = 1 ∧
            (sentence = [] -> last = .statementEnd ∨ last = .endBlock) ∨
          types = sentence ++ .endBlock :: rest ∧ 1 < height ∧
            balanced (height - 1) .endBlock rest = true) := by
  induction size : types.length using Nat.strong_induction_on generalizing height last types with
  | h size inductionHypothesis =>
      cases types with
      | nil => cases isBalanced
      | cons next rest =>
          cases next with
          | normal =>
              simp only [balanced, Bool.and_eq_true, decide_eq_true_eq] at isBalanced
              rcases isBalanced with ⟨_, inside, restBalanced⟩
              rcases words_of_balanced restBalanced with ⟨words, others, typesAre | typesAre⟩
              · rcases typesAre with ⟨restIs, othersBalanced⟩
                obtain ⟨sentence, after, sentenceRead, ended⟩ :=
                  inductionHypothesis others.length (by simp [← size, restIs]; omega)
                    (Or.inr (Or.inl rfl)) othersBalanced rfl
                refine ⟨_, after, .simple words sentenceRead, ?_⟩
                rcases ended with ⟨othersIs, atBottom, _⟩ | ⟨othersIs, closes⟩
                · refine Or.inl ⟨?_, atBottom, fun empty => (by simp at empty)⟩
                  simp [restIs, othersIs, List.replicate_succ]
                · exact Or.inr ⟨(by simp [restIs, othersIs, List.replicate_succ]), closes⟩
              · rcases typesAre with ⟨restIs, innerBalanced⟩
                obtain ⟨inner, afterInner, innerRead, innerEnded⟩ :=
                  inductionHypothesis others.length (by simp [← size, restIs]; omega)
                    (Or.inr (Or.inr (Or.inl rfl))) innerBalanced rfl
                rcases innerEnded with ⟨_, atBottom, _⟩ | ⟨othersIs, _, afterBalanced⟩
                · omega
                obtain ⟨sentence, after, sentenceRead, ended⟩ :=
                  inductionHypothesis afterInner.length
                    (by simp [← size, restIs, othersIs]; omega)
                    (Or.inr (Or.inr (Or.inr rfl))) afterBalanced rfl
                refine ⟨_, after, .block words innerRead sentenceRead, ?_⟩
                rcases ended with ⟨afterIs, atBottom, _⟩ | ⟨afterIs, closes⟩
                · refine Or.inl ⟨?_, atBottom, fun empty => (by simp at empty)⟩
                  simp [restIs, othersIs, afterIs, List.replicate_succ]
                · refine Or.inr ⟨?_, closes⟩
                  simp [restIs, othersIs, afterIs, List.replicate_succ]
          | endBlock =>
              simp only [balanced, Bool.and_eq_true, decide_eq_true_eq] at isBalanced
              exact ⟨[], rest, .none, Or.inr ⟨rfl, isBalanced.2⟩⟩
          | eof =>
              simp only [balanced, Bool.and_eq_true, decide_eq_true_eq] at isBalanced
              refine ⟨[], rest, .none, Or.inl ⟨rfl, isBalanced.2, fun _ => ?_⟩⟩
              rcases settled with rfl | rfl | rfl | rfl <;> simp_all [mayFollow]
          | _ => rcases settled with rfl | rfl | rfl | rfl <;> cases isBalanced

/-! ## The sequence of a text -/

theorem tokensWithin_eof (fuel : Nat) (text : Text) {before after : List Token} {token : Token}
    (sequenceIs : tokensWithin fuel text = before ++ token :: after)
    (isLast : token.last = true) : after = [] := by
  induction fuel generalizing text before with
  | zero => simp [tokensWithin] at sequenceIs
  | succ fuel inductionHypothesis =>
      rw [tokensWithin] at sequenceIs
      by_cases ended : (parseToken text).1.last = true
      · simp only [if_pos ended] at sequenceIs
        cases before with
        | nil => exact (List.cons.inj sequenceIs).2.symm
        | cons => simp at sequenceIs
      · simp only [if_neg ended] at sequenceIs
        cases before with
        | nil =>
            rw [(List.cons.inj sequenceIs).1] at ended
            exact absurd isLast ended
        | cons first before =>
            exact inductionHypothesis (parseToken text).2 (List.cons.inj sequenceIs).2

/-- Nothing comes after the end of the file. -/
theorem significant_eof (text : Text) {before after : List TokenType}
    (typesAre : significant (tokens text) = before ++ .eof :: after) : after = [] := by
  rw [significant, List.filter_eq_append_iff] at typesAre
  rcases typesAre with ⟨front, back, split, _, backIs⟩
  rcases List.filter_eq_cons_iff.mp backIs with ⟨skipped, rest, rfl, _, _, restIs⟩
  rcases List.map_eq_append_iff.mp split with ⟨firstTokens, others, sequenceIs, _, othersAre⟩
  rcases List.map_eq_append_iff.mp othersAre with ⟨skippedTokens, lastTokens, rfl, _, lastAre⟩
  rcases List.map_eq_cons_iff.mp lastAre with ⟨token, finalTokens, rfl, tokenIs, finalAre⟩
  rw [← List.append_assoc] at sequenceIs
  have ended := tokensWithin_eof _ text sequenceIs (by simp [Token.last, tokenIs])
  rw [← restIs, ← finalAre, ended]
  rfl

theorem valid_iff_balanced (text : Text) :
    Valid text <-> balanced 1 .start (significant (tokens text)) = true := by
  constructor
  · rintro ⟨sentence, typesAre, nonempty, isRead⟩
    rcases balanced_statements isRead Nat.one_ne_zero (Or.inl rfl : Settled .start) with
      ⟨after, afterIs, through⟩
    rw [typesAre, through]
    rcases afterIs with ⟨empty, _⟩ | rfl | rfl
    · exact absurd empty nonempty
    · rfl
    · rfl
  · intro isBalanced
    rcases statements_of_balanced (Or.inl rfl) isBalanced with ⟨sentence, rest, isRead, ended⟩
    rcases ended with ⟨typesAre, _, begun⟩ | ⟨_, deeper, _⟩
    · refine ⟨sentence, ?_, fun empty => ?_, isRead⟩
      · rw [typesAre, significant_eof text typesAre]
      · rcases begun empty with impossible | impossible <;> cases impossible
    · omega

/-! ## Where the loop fails to look at the height -/

/-- The loop reads up to some token, where each token may follow its
predecessor, and there it has more closing than opening braces behind it, or is
at the end of the file with a block still open. -/
def MisreadFrom (height : Nat) (last : TokenType) (types : List TokenType) : Prop :=
  Exists fun before : List TokenType => Exists fun next : TokenType =>
    Exists fun rest : List TokenType =>
      types = before ++ next :: rest ∧
      List.IsChain (fun first second => mayFollow first second = true)
        (last :: (before ++ [next])) ∧
      (height + before.count .startBlock ≤ before.count .endBlock ∨
        next = .eof ∧ before.count .endBlock + 1 < height + before.count .startBlock)

/-- A closing brace too many, or a closing brace missing at the end. -/
def Misread (types : List TokenType) : Prop := MisreadFrom 1 .start types

/-- One token that the table allows, above the bottom of the stack. -/
theorem misreadFrom_cons (height' : Nat) {height : Nat} {last next : TokenType}
    {rest : List TokenType} (inside : height ≠ 0) (allowed : mayFollow last next = true)
    (goesOn : next ≠ .eof)
    (heights : height' + [next].count .endBlock = height + [next].count .startBlock) :
    MisreadFrom height last (next :: rest) <-> MisreadFrom height' next rest := by
  constructor
  · rintro ⟨before, final, after, typesAre, chain, wrong⟩
    cases before with
    | nil =>
        rcases List.cons.inj typesAre with ⟨rfl, rfl⟩
        rcases wrong with below | ⟨ended, _⟩
        · simp at below
          omega
        · exact absurd ended goesOn
    | cons first before =>
        rcases List.cons.inj typesAre with ⟨rfl, rfl⟩
        refine ⟨before, final, after, rfl, (List.isChain_cons_cons.mp chain).2, ?_⟩
        rw [← List.singleton_append, List.count_append, List.count_append] at wrong
        exact wrong.imp (fun below => by omega) (And.imp_right (fun above => by omega))
  · rintro ⟨before, final, after, rfl, chain, wrong⟩
    refine ⟨next :: before, final, after, rfl, List.isChain_cons_cons.mpr ⟨allowed, chain⟩, ?_⟩
    rw [← List.singleton_append, List.count_append, List.count_append]
    exact wrong.imp (fun below => by omega) (And.imp_right (fun above => by omega))

theorem allowed_of_misreadFrom {height : Nat} {last next : TokenType} {rest : List TokenType}
    (misread : MisreadFrom height last (next :: rest)) : mayFollow last next = true := by
  rcases misread with ⟨before, final, after, typesAre, chain, _⟩
  cases before with
  | nil =>
      rcases List.cons.inj typesAre with ⟨rfl, rfl⟩
      exact (List.isChain_cons_cons.mp chain).1
  | cons first before =>
      rcases List.cons.inj typesAre with ⟨rfl, rfl⟩
      exact (List.isChain_cons_cons.mp chain).1

theorem mayFollow_eof (next : TokenType) : mayFollow .eof next = false := by
  cases next <;> rfl

/-- At the end of the file the height decides. -/
theorem misreadFrom_eof {height : Nat} {last : TokenType} {rest : List TokenType}
    (allowed : mayFollow last .eof = true) :
    MisreadFrom height last (.eof :: rest) <-> height ≠ 1 := by
  constructor
  · rintro ⟨before, final, after, typesAre, chain, wrong⟩
    cases before with
    | nil =>
        simp only [List.count_nil] at wrong
        rcases wrong with below | ⟨_, above⟩ <;> omega
    | cons first before =>
        rcases List.cons.inj typesAre with ⟨rfl, rfl⟩
        have onward := (List.isChain_cons_cons.mp chain).2
        cases before with
        | nil =>
            have impossible := (List.isChain_cons_cons.mp onward).1
            rw [mayFollow_eof] at impossible
            cases impossible
        | cons second before =>
            have impossible := (List.isChain_cons_cons.mp onward).1
            rw [mayFollow_eof] at impossible
            cases impossible
  · intro wrong
    refine ⟨[], .eof, rest, rfl, List.isChain_cons_cons.mpr ⟨allowed, .singleton _⟩, ?_⟩
    by_cases below : height = 0
    · exact Or.inl (by simp [below])
    · exact Or.inr ⟨rfl, by simp only [List.count_nil]; omega⟩

/-- The loop decides balancedness exactly where it does not fail to look at the
height.  Its stack is empty only after a closing brace. -/
theorem recognize_iff {types : List TokenType} {height : Nat} {last : TokenType}
    (bottom : height = 0 -> last = .endBlock) :
    recognize height last types = .ok (balanced height last types) <->
      ¬MisreadFrom height last types := by
  induction types generalizing height last with
  | nil =>
      refine ⟨fun _ => ?_, fun _ => rfl⟩
      rintro ⟨before, next, rest, typesAre, _⟩
      simp at typesAre
  | cons next rest inductionHypothesis =>
      by_cases allowed : mayFollow last next = true
      case neg =>
        refine ⟨fun _ misread => allowed (allowed_of_misreadFrom misread), fun _ => ?_⟩
        simp [recognize, balanced, allowed]
      by_cases ended : next = .eof
      · subst ended
        rw [misreadFrom_eof allowed]
        simp [recognize, balanced, allowed]
      by_cases atBottom : height = 0
      · have misread : MisreadFrom height last (next :: rest) :=
          ⟨[], next, rest, rfl, List.isChain_cons_cons.mpr ⟨allowed, .singleton _⟩,
            Or.inl (by simp [atBottom])⟩
        refine ⟨fun decided => ?_, fun sound => absurd misread sound⟩
        have lastIs := bottom atBottom
        subst lastIs atBottom
        cases next <;> simp_all [recognize, mayFollow]
      · cases next with
        | normal =>
            rw [misreadFrom_cons height atBottom allowed ended rfl,
              ← inductionHypothesis (fun impossible => absurd impossible atBottom)]
            simp [recognize, balanced, allowed, atBottom]
        | statementEnd =>
            rw [misreadFrom_cons height atBottom allowed ended rfl,
              ← inductionHypothesis (fun impossible => absurd impossible atBottom)]
            simp [recognize, balanced, allowed, atBottom]
        | startBlock =>
            rw [misreadFrom_cons (height + 1) atBottom allowed ended rfl,
              ← inductionHypothesis (fun impossible => absurd impossible (Nat.succ_ne_zero _))]
            simp [recognize, balanced, allowed, atBottom]
        | endBlock =>
            rw [misreadFrom_cons (height - 1) atBottom allowed ended
                (Nat.sub_add_cancel (Nat.pos_of_ne_zero atBottom)),
              ← inductionHypothesis (fun _ => rfl)]
            have belowBottom : (decide (1 < height) && balanced (height - 1) .endBlock rest) =
                balanced (height - 1) .endBlock rest := by
              by_cases above : 1 < height
              · simp [above]
              · rw [show height - 1 = 0 by omega, balanced_zero, Bool.and_false]
            simp [recognize, balanced, allowed, atBottom, belowBottom]
        | eof => exact absurd rfl ended
        | _ => cases allowed

/-- `Parse` has a verdict, and it is the grammar's, if and only if the loop does
not fail to look at the height. -/
theorem parse_decides_iff (text : Text) :
    (Exists fun verdict : Bool => Exists fun config : NginxConfig =>
      parse text = .ok (verdict, config) ∧ (verdict = true <-> Valid text)) <->
      ¬Misread (significant (tokens text)) := by
  rw [Misread, ← recognize_iff (fun impossible => absurd impossible Nat.one_ne_zero),
    ← parse_verdict, valid_iff_balanced]
  constructor
  · rintro ⟨verdict, config, parsed, decides⟩
    rw [parsed, Bool.eq_iff_iff.mpr decides]
    rfl
  · intro decided
    cases outcome : parse text with
    | error fault =>
        rw [outcome] at decided
        cases decided
    | ok result =>
        rw [outcome] at decided
        rcases result with ⟨verdict, config⟩
        have verdictIs : verdict = balanced 1 .start (significant (tokens text)) :=
          Except.ok.inj decided
        exact ⟨verdict, config, rfl, by rw [verdictIs]⟩

/-- A block that is not closed and a block that is closed twice are accepted. -/
theorem unclosed_accepted :
    parse "foo \x7b bar;".toList = .ok (true, .block ["foo".toList]
      (.simple ["bar".toList] .empty) .empty) ∧
      ¬Valid "foo \x7b bar;".toList ∧
      parse "foo; \x7d".toList = .ok (true, .simple ["foo".toList] .empty) ∧
      ¬Valid "foo; \x7d".toList := by
  rw [valid_iff_balanced, valid_iff_balanced]
  decide

end Config
end Webserver
