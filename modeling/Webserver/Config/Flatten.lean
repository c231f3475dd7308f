import Webserver.Config.Grammar

namespace Webserver
namespace Config

/-!
# Trees as token sequences

A tree is flattened to the tokens of its statements in order.  `Parse` reads a
flattened tree back, and a text that the grammar accepts is, without its
comments, a flattened tree up to the end of the file.
-/

namespace NginxConfig

/-- The tokens of the statements in order, each ended by `;` or by its block in
braces. -/
def flatten : NginxConfig -> List Token
  | empty => []
  | simple words next => words.map (Token.mk .normal) ++ ⟨.statementEnd, [';']⟩ :: next.flatten
  | block words child next =>
      words.map (Token.mk .normal) ++
        ⟨.startBlock, ['{']⟩ :: (child.flatten ++ ⟨.endBlock, ['}']⟩ :: next.flatten)

/-- A property of the words of each statement, at every depth. -/
def AllStatements (property : List Text -> Prop) : NginxConfig -> Prop
  | empty => True
  | simple words next => property words ∧ next.AllStatements property
  | block words child next =>
      property words ∧ child.AllStatements property ∧ next.AllStatements property

/-- The words of the statements are those of the flattened tree. -/
theorem allStatements_iff_flatten (property : Text -> Prop) (config : NginxConfig) :
    config.AllStatements (fun words => forall word, word ∈ words -> property word) <->
      forall word, (⟨.normal, word⟩ : Token) ∈ config.flatten -> property word := by
  induction config with
  | empty => simp [AllStatements, flatten]
  | simple words next inductionHypothesis =>
      simp only [AllStatements, flatten, inductionHypothesis, List.mem_append, List.mem_map,
        List.mem_cons, Token.mk.injEq, reduceCtorEq, false_and, false_or, true_and,
        exists_eq_right, or_imp, forall_and]
  | block words child next childHypothesis nextHypothesis =>
      simp only [AllStatements, flatten, childHypothesis, nextHypothesis, List.mem_append,
        List.mem_map, List.mem_cons, Token.mk.injEq, reduceCtorEq, false_and, false_or,
        true_and, exists_eq_right, or_imp, forall_and]

end NginxConfig

/-! ## Reading a flattened tree -/

/-- Words are added to the statement that is being read. -/
theorem parseTokens_words (words : List Text) (rest : List Token) (statement : List Text)
    (child : Option NginxConfig) (others : Frame) (below : List Frame) (popped : Frame) :
    parseTokens (words.map (Token.mk .normal) ++ rest)
        ⟨.normal, (⟨statement, child⟩ :: others) :: below, popped⟩ =
      parseTokens rest ⟨.normal, (⟨statement ++ words, child⟩ :: others) :: below, popped⟩ := by
  induction words generalizing statement with
  | nil => rw [List.append_nil]; rfl
  | cons word words inductionHypothesis =>
      have readsWord := inductionHypothesis (statement ++ [word])
      rw [List.append_assoc, List.singleton_append] at readsWord
      exact readsWord

/-- The first word begins a statement. -/
theorem parseTokens_statement {words : List Text} (nonempty : words ≠ [])
    {last : TokenType} (settled : Settled last) (rest : List Token)
    (top : Frame) (below : List Frame) (popped : Frame) :
    parseTokens (words.map (Token.mk .normal) ++ rest) ⟨last, top :: below, popped⟩ =
      parseTokens rest ⟨.normal, (⟨words, none⟩ :: top) :: below, popped⟩ := by
  rcases List.exists_cons_of_ne_nil nonempty with ⟨word, others, rfl⟩
  have begun : parseTokens ((word :: others).map (Token.mk .normal) ++ rest)
      ⟨last, top :: below, popped⟩ =
      parseTokens (others.map (Token.mk .normal) ++ rest)
        ⟨.normal, (⟨[word], none⟩ :: top) :: below, popped⟩ := by
    rcases settled with rfl | rfl | rfl | rfl <;> rfl
  rw [begun, parseTokens_words]
  rfl

/-- The statements of a flattened tree are added to the open block. -/
theorem parseTokens_flatten {config : NginxConfig}
    (nonempty : config.AllStatements (fun words => words ≠ []))
    {last : TokenType} (settled : Settled last) (top : Frame) (below : List Frame)
    (popped : Frame) :
    Exists fun after : TokenType =>
      (config = .empty ∧ after = last ∨ after = .statementEnd ∨ after = .endBlock) ∧
      forall rest : List Token,
        parseTokens (config.flatten ++ rest) ⟨last, top :: below, popped⟩ =
          parseTokens rest ⟨after, (config.statements.reverse ++ top) :: below, popped⟩ := by
  induction config generalizing last top below with
  | empty => exact ⟨last, Or.inl ⟨rfl, rfl⟩, fun _ => rfl⟩
  | simple words next inductionHypothesis =>
      rcases inductionHypothesis nonempty.2 (Or.inr (Or.inl rfl)) (⟨words, none⟩ :: top) below with
        ⟨after, afterIs, through⟩
      refine ⟨after, Or.inr ?_, fun rest => ?_⟩
      · rcases afterIs with ⟨_, same⟩ | ended
        · exact Or.inl same
        · exact ended
      · rw [NginxConfig.flatten, List.append_assoc, parseTokens_statement nonempty.1 settled]
        have ended := through rest
        simp only [NginxConfig.statements, List.reverse_cons, List.append_assoc,
          List.singleton_append]
        rw [← ended]
        rfl
  | block words child next childHypothesis nextHypothesis =>
      rcases childHypothesis nonempty.2.1 (Or.inr (Or.inr (Or.inl rfl))) [] ((⟨words, some .empty⟩
          :: top) :: below) with ⟨childAfter, childAfterIs, throughChild⟩
      rcases nextHypothesis nonempty.2.2 (Or.inr (Or.inr (Or.inr rfl))) (⟨words, some child⟩ :: top)
          below with ⟨after, afterIs, through⟩
      refine ⟨after, Or.inr ?_, fun rest => ?_⟩
      · rcases afterIs with ⟨_, same⟩ | ended
        · exact Or.inr same
        · exact ended
      · have flattened : (NginxConfig.block words child next).flatten ++ rest =
            words.map (Token.mk .normal) ++ (⟨.startBlock, ['{']⟩ ::
              (child.flatten ++ (⟨.endBlock, ['}']⟩ :: (next.flatten ++ rest)))) := by
          simp [NginxConfig.flatten]
        have opened : parseTokens (⟨.startBlock, ['{']⟩ ::
              (child.flatten ++ (⟨.endBlock, ['}']⟩ :: (next.flatten ++ rest))))
              ⟨.normal, (⟨words, none⟩ :: top) :: below, popped⟩ =
            parseTokens (child.flatten ++ (⟨.endBlock, ['}']⟩ :: (next.flatten ++ rest)))
              ⟨.startBlock, [] :: (⟨words, some .empty⟩ :: top) :: below, popped⟩ := rfl
        have closed : parseTokens (⟨.endBlock, ['}']⟩ :: (next.flatten ++ rest))
              ⟨childAfter, (child.statements.reverse ++ []) ::
                (⟨words, some .empty⟩ :: top) :: below, popped⟩ =
            parseTokens (next.flatten ++ rest)
              ⟨.endBlock, (⟨words, some child⟩ :: top) :: below, popped⟩ := by
          have childIs : NginxConfig.ofStatements
              (child.statements.reverse ++ []).reverse = child := by simp
          rcases childAfterIs with ⟨_, rfl⟩ | rfl | rfl <;>
            simp [parseTokens, ParserState.step, mayFollow, Round.after, ParserState.popBlock,
              closeFrame]
        rw [flattened, parseTokens_statement nonempty.1 settled, opened, throughChild, closed,
          through]
        simp [NginxConfig.statements]

/-! ## Comments -/

/-- The tokens that are not comments. -/
def withoutComments (sequence : List Token) : List Token :=
  sequence.filter (fun token => !(token.type == .comment))

theorem significant_eq_map (sequence : List Token) :
    significant sequence = (withoutComments sequence).map Token.type := by
  rw [significant, withoutComments, List.filter_map]
  rfl

theorem parseTokens_withoutComments (sequence : List Token) (state : ParserState) :
    parseTokens (withoutComments sequence) state = parseTokens sequence state := by
  induction sequence generalizing state with
  | nil => rfl
  | cons token rest inductionHypothesis =>
      by_cases dropped : token.type = .comment
      · have skipped : state.step token = .goOn state := by
          rw [ParserState.step, if_pos dropped]
        have shorter : withoutComments (token :: rest) = withoutComments rest := by
          simp [withoutComments, dropped]
        rw [shorter, inductionHypothesis, parseTokens, skipped]
      · have kept : withoutComments (token :: rest) = token :: withoutComments rest := by
          simp [withoutComments, dropped]
        rw [kept, parseTokens, parseTokens]
        cases state.step token with
        | goOn next => exact inductionHypothesis next
        | finished verdict => rfl
        | undefined => rfl

/-- `Parse` accepts a flattened tree and builds it. -/
theorem parse_of_flatten {text : Text} {config : NginxConfig} (final : Text)
    (tokensAre : withoutComments (tokens text) = config.flatten ++ [⟨.eof, final⟩])
    (some : config ≠ .empty) (nonempty : config.AllStatements (fun words => words ≠ [])) :
    parse text = .ok (true, config) := by
  rcases parseTokens_flatten nonempty (Or.inl rfl : Settled .start) [] [] [] with
    ⟨after, afterIs, through⟩
  have accepted : forall state : ParserState,
      state.lastTokenType = .statementEnd ∨ state.lastTokenType = .endBlock ->
        parseTokens [⟨.eof, final⟩] state = .ok (true, state.config) := by
    rintro ⟨last, stack, popped⟩ (rfl | rfl) <;> rfl
  have started : ParserState.initial .empty = ⟨.start, [[]], []⟩ := rfl
  rw [parse, parseInto, ← parseTokens_withoutComments, tokensAre, started, through,
    accepted _ (afterIs.resolve_left (fun isEmpty => some isEmpty.1))]
  simp [ParserState.config, collapse]

/-! ## The tree of a sentence -/

/-- A token that is not a word is its own symbol. -/
def Token.Spelled (token : Token) : Prop :=
  (token.type = .statementEnd -> token.value = [';']) ∧
  (token.type = .startBlock -> token.value = ['{']) ∧
  (token.type = .endBlock -> token.value = ['}'])

theorem quotedState_type (quote : Char) (reversed text : Text) :
    (quotedState quote reversed text).1.type = .normal ∨
      (quotedState quote reversed text).1.type = .error := by
  fun_induction quotedState quote reversed text <;> simp_all

theorem commentState_type (reversed text : Text) :
    (commentState reversed text).1.type = .comment ∨
      (commentState reversed text).1.type = .eof := by
  fun_induction commentState reversed text <;> simp_all

theorem normalState_type (reversed text : Text) :
    (normalState reversed text).1.type = .normal ∨
      (normalState reversed text).1.type = .eof := by
  fun_induction normalState reversed text <;> simp_all

theorem parseToken_spelled (text : Text) : (parseToken text).1.Spelled := by
  fun_induction parseToken text with
  | case1 => simp [Token.Spelled]
  | case2 rest => simp [Token.Spelled]
  | case3 rest => simp [Token.Spelled]
  | case4 rest =>
      rcases commentState_type ['#'] rest with type | type <;> simp [Token.Spelled, type]
  | case5 rest =>
      rcases quotedState_type '"' ['"'] rest with type | type <;> simp [Token.Spelled, type]
  | case6 rest =>
      rcases quotedState_type '\'' ['\''] rest with type | type <;> simp [Token.Spelled, type]
  | case7 rest => simp [Token.Spelled]
  | case8 c rest _ _ _ _ _ _ _ inductionHypothesis => exact inductionHypothesis
  | case9 c rest =>
      rcases normalState_type [c] rest with type | type <;> simp [Token.Spelled, type]

/-- What every call of `ParseToken` gives holds of all tokens of a text. -/
theorem tokens_all {property : Token -> Prop}
    (holds : forall text : Text, property (parseToken text).1) (text : Text) :
    forall token, token ∈ tokens text -> property token := by
  rw [tokens]
  generalize text.length + 1 = fuel
  induction fuel generalizing text with
  | zero => simp [tokensWithin]
  | succ fuel inductionHypothesis =>
      intro token isRead
      rw [tokensWithin] at isRead
      by_cases last : (parseToken text).1.last = true
      · simp only [if_pos last, List.mem_singleton] at isRead
        exact isRead ▸ holds text
      · simp only [if_neg last, List.mem_cons] at isRead
        rcases isRead with rfl | later
        · exact holds text
        · exact inductionHypothesis _ _ later

theorem words_of_types {sequence : List Token} {words : Nat}
    (typesAre : sequence.map Token.type = List.replicate words .normal) :
    (sequence.map Token.value).map (Token.mk .normal) = sequence := by
  rw [List.map_map]
  refine (List.map_congr_left (fun token isToken => ?_)).trans (List.map_id' sequence)
  have typeIs := List.eq_of_mem_replicate (typesAre ▸ List.mem_map_of_mem isToken)
  rw [Function.comp_apply, ← typeIs]

/-- A sentence of the grammar is a flattened tree. -/
theorem tree_of_statements {types : List TokenType} (isRead : Statements types)
    {sequence : List Token} (typesAre : sequence.map Token.type = types)
    (spelled : forall token, token ∈ sequence -> token.Spelled) :
    Exists fun config : NginxConfig =>
      sequence = config.flatten ∧ config.AllStatements (fun words => words ≠ []) := by
  induction isRead generalizing sequence with
  | none => exact ⟨.empty, List.map_eq_nil_iff.mp typesAre, trivial⟩
  | simple words _ inductionHypothesis =>
      rcases List.map_eq_append_iff.mp typesAre with ⟨wordTokens, rest, rfl, wordsAre, restAre⟩
      rcases List.map_eq_cons_iff.mp restAre with ⟨ender, others, rfl, enderIs, othersAre⟩
      rcases inductionHypothesis othersAre (fun token isOther => spelled token (by simp [isOther]))
          with ⟨next, rfl, nextNonempty⟩
      refine ⟨.simple (wordTokens.map Token.value) next, ?_, ?_, nextNonempty⟩
      · have enderValue := (spelled ender (by simp)).1 enderIs
        rw [NginxConfig.flatten, words_of_types wordsAre, ← enderIs, ← enderValue]
      · intro empty
        have lengths := congrArg List.length wordsAre
        simp [List.map_eq_nil_iff.mp empty] at lengths
  | block words _ _ innerHypothesis othersHypothesis =>
      rcases List.map_eq_append_iff.mp typesAre with ⟨wordTokens, rest, rfl, wordsAre, restAre⟩
      rcases List.map_eq_cons_iff.mp restAre with ⟨opening, afterOpening, rfl, openingIs, innerAre⟩
      rcases List.map_eq_append_iff.mp innerAre with
        ⟨innerTokens, afterInner, rfl, innerTypes, closingAre⟩
      rcases List.map_eq_cons_iff.mp closingAre with ⟨closing, others, rfl, closingIs, othersAre⟩
      rcases innerHypothesis innerTypes (fun token isInner => spelled token (by simp [isInner]))
          with ⟨child, rfl, childNonempty⟩
      rcases othersHypothesis othersAre (fun token isOther => spelled token (by simp [isOther]))
          with ⟨next, rfl, nextNonempty⟩
      refine ⟨.block (wordTokens.map Token.value) child next, ?_, ?_, childNonempty,
        nextNonempty⟩
      · have openingValue := (spelled opening (by simp)).2.1 openingIs
        have closingValue := (spelled closing (by simp)).2.2 closingIs
        rw [NginxConfig.flatten, words_of_types wordsAre, ← openingIs, ← openingValue,
          ← closingIs, ← closingValue]
      · intro empty
        have lengths := congrArg List.length wordsAre
        simp [List.map_eq_nil_iff.mp empty] at lengths

/-- A text that the grammar accepts is a flattened tree without its comments, and
`Parse` builds that tree. -/
theorem parse_of_valid {text : Text} (valid : Valid text) :
    Exists fun config : NginxConfig => Exists fun final : Text =>
      withoutComments (tokens text) = config.flatten ++ [⟨.eof, final⟩] ∧
      config ≠ .empty ∧ config.AllStatements (fun words => words ≠ []) ∧
      parse text = .ok (true, config) := by
  rcases valid with ⟨sentence, typesAre, some, isRead⟩
  rw [significant_eq_map] at typesAre
  rcases List.map_eq_append_iff.mp typesAre with
    ⟨sequence, lastTokens, sequenceIs, sequenceTypes, lastAre⟩
  rcases List.map_eq_cons_iff.mp lastAre with ⟨⟨type, final⟩, others, rfl, typeIs, othersAre⟩
  rcases List.map_eq_nil_iff.mp othersAre with rfl
  simp only at typeIs
  subst typeIs
  obtain ⟨config, rfl, nonempty⟩ := tree_of_statements isRead sequenceTypes (by
    intro token isToken
    apply tokens_all parseToken_spelled text token
    have member : token ∈ withoutComments (tokens text) := by simp [sequenceIs, isToken]
    exact (List.mem_filter.mp member).1)
  have configSome : config ≠ .empty := by
    rintro rfl
    exact some sequenceTypes.symm
  exact ⟨config, final, sequenceIs, configSome, nonempty,
    parse_of_flatten final sequenceIs configSome nonempty⟩

/-! ## Accepted texts with balanced braces -/

/-- There are as many closing as opening braces, and nowhere more before it. -/
def BracesBalanced (types : List TokenType) : Prop :=
  types.count .endBlock = types.count .startBlock ∧
    forall before, before <+: types -> before.count .endBlock ≤ before.count .startBlock

instance (types : List TokenType) : Decidable (BracesBalanced types) :=
  decidable_of_iff (types.count .endBlock = types.count .startBlock ∧
      forall before, before ∈ types.inits -> before.count .endBlock ≤ before.count .startBlock)
    (by simp only [BracesBalanced, List.mem_inits])

theorem not_misread_of_balanced {text : Text}
    (balanced : BracesBalanced (significant (tokens text))) :
    ¬Misread (significant (tokens text)) := by
  rintro ⟨before, next, rest, typesAre, _, wrong⟩
  have initial : before <+: significant (tokens text) := by
    rw [typesAre]
    exact List.prefix_append _ _
  have fewer := balanced.2 before initial
  rcases wrong with below | ⟨rfl, above⟩
  · omega
  · have whole := balanced.1
    rw [typesAre, significant_eof text typesAre, List.count_append, List.count_append] at whole
    simp at whole
    omega

/-- The tree of an accepted text, flattened, is its token sequence without the
comments and the end of the file. -/
theorem parse_flattens {text : Text} {config : NginxConfig}
    (accepted : parse text = .ok (true, config))
    (balanced : BracesBalanced (significant (tokens text))) :
    Exists fun final : Text =>
      withoutComments (tokens text) = config.flatten ++ [⟨.eof, final⟩] := by
  rcases (parse_decides_iff text).mpr (not_misread_of_balanced balanced) with
    ⟨verdict, read, parsed, decides⟩
  obtain ⟨rfl, rfl⟩ := Prod.mk.inj (Except.ok.inj (parsed.symm.trans accepted))
  rcases parse_of_valid (decides.mp rfl) with ⟨built, final, sequenceIs, _, _, again⟩
  obtain rfl := (Prod.mk.inj (Except.ok.inj (again.symm.trans accepted))).2
  exact ⟨final, sequenceIs⟩

theorem nestedBlocks_flatten :
    Exists fun final : Text =>
      withoutComments (tokens "a \x7b b; # c\n \x7d d;".toList) =
        (NginxConfig.block ["a".toList] (.simple ["b".toList] .empty)
          (.simple ["d".toList] .empty)).flatten ++ [⟨.eof, final⟩] := by
  exact parse_flattens (by decide) (by decide)

end Config
end Webserver
