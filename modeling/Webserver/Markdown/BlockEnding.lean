import Webserver.Markdown.BlockRuns

namespace Webserver
namespace Markdown

open Regex Rounds

/-!
# The pass over the blocks ends

The list parser ends since every round of its loop uses a line.  The pass over the blocks
goes into the containers that the parsers find.  What they find there is shorter than
the lines it has been made of, since a list or a quote begins with marks that are taken
away; a container that is there already is left for the tokens inside.
-/

mutual

/-- The number of characters in the texts of a token. -/
def Token.weight : Token -> Nat
  | .text _ content => content.length
  | .container _ subTokens => Token.weightAll subTokens
  | .escapedCharacter _ => 0
  | .boldOrItalicMarker _ => 0
  | .image _ _ _ => 0

def Token.weightAll : List Token -> Nat
  | [] => 0
  | token :: rest => token.weight + Token.weightAll rest

end

mutual

/-- The number of tokens that a token consists of. -/
def Token.count : Token -> Nat
  | .container _ subTokens => Token.countAll subTokens + 1
  | .text _ _ => 1
  | .escapedCharacter _ => 1
  | .boldOrItalicMarker _ => 1
  | .image _ _ _ => 1

def Token.countAll : List Token -> Nat
  | [] => 0
  | token :: rest => token.count + Token.countAll rest

end

open Token

theorem weightAll_append (first second : List Token) :
    weightAll (first ++ second) = weightAll first + weightAll second := by
  induction first with
  | nil => exact (Nat.zero_add _).symm
  | cons token rest inductionHypothesis =>
      rw [List.cons_append, weightAll, weightAll, inductionHypothesis, Nat.add_assoc]

theorem weightAll_suffix {last tokens : List Token} (suffix : last <:+ tokens) :
    weightAll last ≤ weightAll tokens := by
  rcases suffix with ⟨front, rfl⟩
  rw [weightAll_append]
  exact Nat.le_add_left _ _

theorem countAll_suffix {last tokens : List Token} (suffix : last <:+ tokens) :
    countAll last ≤ countAll tokens := by
  rcases suffix with ⟨front, rfl⟩
  induction front with
  | nil => exact Nat.le_refl _
  | cons token rest inductionHypothesis =>
      exact Nat.le_trans inductionHypothesis (Nat.le_add_left _ _)

theorem count_pos (token : Token) : 0 < token.count := by
  cases token with
  | container kind subTokens => exact Nat.succ_pos _
  | _ => exact Nat.one_pos

theorem weight_of_text? {token : Token} {line : Text} (has : token.text? = some line) :
    token.weight = line.length := by
  cases token with
  | text kind content =>
      cases has
      rfl
  | _ => cases has

theorem LineAfter.weight {line : Text} {rest tokens : List Token} (next : LineAfter line rest tokens) :
    line.length + weightAll rest ≤ weightAll tokens := by
  cases next with
  | here has => rw [weightAll, weight_of_text? has]
  | behindBlank blank has =>
      rw [weightAll, weightAll, weight_of_text? has]
      exact Nat.le_add_left _ _

theorem LineAfter.shorter {line : Text} {rest tokens : List Token} (next : LineAfter line rest tokens) :
    rest.length < tokens.length := by
  cases next with
  | here has => exact Nat.lt_succ_self _
  | behindBlank blank has => exact Nat.lt_succ_of_lt (Nat.lt_succ_self _)

/-! ## What the marks take -/

/-- The first item is shorter than its line. -/
theorem listStart_shorter {sub : Bool} {line content : Text} {shape : ListShape}
    (started : listStart sub line = some (shape, content)) : content.length < line.length := by
  rw [listStart] at started
  split at started
  · rename_i m matched
    dsimp only at started
    split at started
    · cases started
      exact Nat.lt_of_lt_of_le (Nat.lt_add_of_pos_right (by decide))
        (fullMatch_group_shorter rfl matched)
    · cases started
  · split at started
    · rename_i m matched
      dsimp only at started
      split at started
      · cases started
        exact Nat.lt_of_lt_of_le (Nat.lt_add_of_pos_right (by decide))
          (fullMatch_group_shorter rfl matched)
      · cases started
    · cases started

/-- The first line of a quote loses its marks. -/
theorem quote_shorter {line : Text} {m : Regex.Match} (matched : cBlockQuoteExpression.fullMatch line = some m) :
    (m.group 2).length < line.length :=
  Nat.lt_of_lt_of_le (Nat.lt_add_of_pos_right (by decide)) (fullMatch_group_shorter rfl matched)

/-- A line of code inside an item is indented by eight spaces or more. -/
theorem code_shorter {indent : Nat} {line : Text} {m : Regex.Match}
    (matched : (codeBlockAfterBlankLineExpression indent).fullMatch line = some m) :
    (m.group 1).length + 8 ≤ line.length := by
  have shorter := fullMatch_group_shorter rfl matched
  change _ + (0 + (times (indent + 8) space).shortest) ≤ _ at shorter
  rw [shortest_times] at shorter
  change _ + (0 + (indent + 8) * 1) ≤ _ at shorter
  omega

theorem listCodeLoop_weight {indent : Nat} {codeBlock text : Text} {tokens last : List Token}
    (read : listCodeLoop (codeBlockAfterBlankLineExpression indent) codeBlock tokens = .ok (text, last)) :
    text.length + weightAll last ≤ codeBlock.length + weightAll tokens := by
  induction codeBlock, tokens using listCodeLoop.induct (codeBlockAfterBlankLineExpression indent) with
  | case1 codeBlock =>
      cases read
      exact Nat.le_refl _
  | case2 codeBlock token blank =>
      simp only [listCodeLoop, if_pos blank] at read
      cases read
  | case3 codeBlock token blank next later noText =>
      simp only [listCodeLoop, if_pos blank, noText] at read
      cases read
  | case4 codeBlock token blank next later line has m matched inductionHypothesis =>
      simp only [listCodeLoop, if_pos blank, has, matched] at read
      have onward := inductionHypothesis read
      have next_ : LineAfter line later (token :: next :: later) := .behindBlank token has
      have lineWeight := next_.weight
      have shorter := code_shorter matched
      simp only [List.length_append, List.length_cons, List.length_nil] at onward
      omega
  | case5 codeBlock token blank next later line has unmatched =>
      simp only [listCodeLoop, if_pos blank, has, unmatched] at read
      cases read
      exact Nat.le_refl _
  | case6 codeBlock token rest full noText =>
      rw [listCodeLoop.eq_def] at read
      simp only [if_neg full, noText] at read
      cases read
      exact Nat.le_refl _
  | case7 codeBlock token rest full line has m matched inductionHypothesis =>
      rw [listCodeLoop.eq_def] at read
      simp only [if_neg full, has, matched] at read
      have onward := inductionHypothesis read
      have next_ : LineAfter line rest (token :: rest) := .here has
      have lineWeight := next_.weight
      have shorter := code_shorter matched
      simp only [List.length_append, List.length_cons, List.length_nil] at onward
      omega
  | case8 codeBlock token rest full line has unmatched =>
      rw [listCodeLoop.eq_def] at read
      simp only [if_neg full, has, unmatched] at read
      cases read
      exact Nat.le_refl _

theorem Added.weight {tokens rest pushed : List Token} (added : Added tokens rest pushed) :
    weightAll pushed + weightAll rest ≤ weightAll tokens := by
  cases added with
  | text next part =>
      have lineWeight := next.weight
      have shorter := part.length_le
      simp only [weightAll, Token.weight, Nat.add_zero]
      omega
  | textAfterBlank next part =>
      have lineWeight := next.weight
      have shorter := part.length_le
      simp only [weightAll, Token.weight, List.length_nil, Nat.zero_add, Nat.add_zero]
      omega
  | code next matched read =>
      have lineWeight := next.weight
      have shorter := code_shorter matched
      have code := listCodeLoop_weight read
      simp only [weightAll, Token.weight, List.length_nil, Nat.zero_add, Nat.add_zero]
      rw [List.length_append, List.length_singleton] at code
      omega

theorem Added.shorter {tokens rest pushed : List Token} (added : Added tokens rest pushed) :
    rest.length < tokens.length := by
  cases added with
  | text next part => exact next.shorter
  | textAfterBlank next part => exact next.shorter
  | code next matched read =>
      exact Nat.lt_of_le_of_lt (listCodeLoop_suffix read).length_le next.shorter

/-! ## Lists -/

def ListState.weight (state : ListState) : Nat :=
  weightAll state.subTokens + weightAll state.subItemTokens

namespace ListState

variable {state counted : ListState}

theorem weight_kept (kept : state.Kept counted) : counted.weight = state.weight := by
  rw [weight, weight, kept.1, kept.2]

theorem weight_push (state : ListState) (tokens : List Token) :
    (state.push tokens).weight = state.weight + weightAll tokens := by
  change weightAll state.subTokens + weightAll (state.subItemTokens ++ tokens) = _
  rw [weightAll_append, weight, Nat.add_assoc]

theorem endItem_subItemTokens (state : ListState) : state.endItem.subItemTokens = [] := by
  rw [endItem]
  split
  · assumption
  · rfl

theorem weight_endItem (state : ListState) : state.endItem.weight = state.weight := by
  rw [endItem]
  split
  · rfl
  · change weightAll (state.subTokens ++ [_]) + 0 = _
    rw [weightAll_append, weight]
    rfl

theorem weight_nextItem (state : ListState) (content : Text) :
    (state.nextItem content).weight = state.weight + content.length := by
  change (state.endItem.push [.rawText content]).weight = _
  rw [weight_push, weight_endItem]
  rfl

end ListState

theorem weight_listToken (type : ListType) (subTokens : List Token) (paragraphMode : Bool) :
    (listToken type subTokens paragraphMode).weight = weightAll subTokens := by
  rw [listToken.eq_def, Token.weight]
  split
  · induction subTokens with
    | nil => rfl
    | cons token rest inductionHypothesis =>
        rw [List.map_cons, weightAll, weightAll, inductionHypothesis]
        split
        · rfl
        · rfl
  · rfl

/-- A list has fewer characters than the lines that it has been read from. -/
theorem parseListBlock_weight {rounds : Nat} {sub : Bool} {tokens last : List Token} {list : Token}
    (parsed : parseListBlock rounds sub tokens = .ok (some (list, last))) :
    list.weight + weightAll last < weightAll tokens := by
  refine ((@parseListBlock_rule
    (fun tokens list last => list.weight + weightAll last < weightAll tokens)
    (fun state tokens final last => final.weight + weightAll last ≤ state.weight + weightAll tokens)
    ?_ ?_ ?_ ?_ ?_ rounds).1 parsed).2
  · intro sub token rest line shape content state last has started run
    have shorter := listStart_shorter started
    have items : state.endItem.weight = weightAll state.endItem.subTokens := by
      rw [ListState.weight, state.endItem_subItemTokens]
      rfl
    rw [weight_listToken, ← items, state.weight_endItem, weightAll, weight_of_text? has]
    simp only [ListState.weight, weightAll, Token.weight, Nat.zero_add, Nat.add_zero] at run ⊢
    omega
  · intro state tokens final last ended left
    have same : final.weight = state.weight := by
      rcases ended with rfl | rfl
      · rfl
      · exact state.weight_endItem
    rw [same]
    apply Nat.add_le_add_left
    rcases left with rfl | rfl
    · exact Nat.le_refl _
    · exact Nat.zero_le _
  · intro state counted tokens line content rest final last kept next part run
    have lineWeight := next.weight
    have shorter := part.length_le
    rw [ListState.weight_nextItem, ListState.weight_kept kept] at run
    omega
  · intro state counted tokens rest pushed final last kept added run
    have more := added.weight
    rw [ListState.weight_push, ListState.weight_kept kept] at run
    omega
  · intro state counted tokens token rest list between final last kept inner suffix nested run
    have inside := weightAll_suffix inner
    rw [ListState.weight_push, ListState.weight_kept kept] at run
    simp only [weightAll, Nat.add_zero] at run inside nested
    omega

/-- The list parser ends, and so does its loop. -/
theorem lists_end (size : Nat) :
    (forall tokens : List Token, tokens.length ≤ size -> forall sub : Bool,
      Ends Fault.unfinished (fun rounds => parseListBlock rounds sub tokens)) ∧
    (forall tokens : List Token, tokens.length ≤ size -> forall (shape : ListShape) (state : ListState),
      Ends Fault.unfinished (fun rounds => listLoop rounds shape state tokens)) := by
  induction size using Nat.strong_induction_on with
  | _ size inductionHypothesis =>
      have lists : forall tokens : List Token, tokens.length ≤ size -> forall sub : Bool,
          Ends Fault.unfinished (fun rounds => parseListBlock rounds sub tokens) := by
        intro tokens small sub
        apply Ends.later
        generalize turned : (fun rounds => parseListBlock (rounds + 1) sub tokens) = turn
        have blockTurn := parseListBlock_turn sub tokens
        rw [turned] at blockTurn
        cases blockTurn with
        | none_ => exact .ok none
        | @starts token rest line content shape here has started =>
            subst here
            have loop := (inductionHypothesis rest.length small).2 rest (Nat.le_refl _) shape
              ⟨[], [.rawText content], 1, false⟩
            apply Ends.bind loop
            rintro ⟨state, last⟩ _
            dsimp only
            split
            · exact .ok _
            · exact .ok none
      refine ⟨lists, fun tokens small shape state => ?_⟩
      have shorter : forall rest : List Token, rest.length < tokens.length -> forall state : ListState,
          Ends Fault.unfinished (fun rounds => listLoop rounds shape state rest) :=
        fun rest less state =>
          (inductionHypothesis rest.length (Nat.lt_of_lt_of_le less small)).2 rest (Nat.le_refl _) shape state
      apply Ends.later
      generalize turned : (fun rounds => listLoop (rounds + 1) shape state tokens) = turn
      have listTurn := listLoop_turn shape state tokens
      rw [turned] at listTurn
      cases listTurn with
      | stops ended left => exact .ok _
      | fails finished => exact .const (error_finished finished)
      | item kept next part => exact shorter _ next.shorter _
      | pushes kept added => exact shorter _ added.shorter _
      | @sublist counted token rest kept inner =>
          apply Ends.bind (lists (token :: rest) (Nat.le_trans inner.length_le small) true)
          rintro (_ | ⟨sublist, last⟩) ⟨rounds, parsed⟩
          · exact .const (error_finished (by decide))
          · rcases parseListBlock_suffix parsed with ⟨_, _, here, suffix⟩
            cases here
            exact shorter _ (Nat.lt_of_le_of_lt suffix.length_le inner.length_le) _

/-! ## Quotes -/

theorem QuoteAdded.weight {content : Text} {added : List Token} (adds : QuoteAdded content added) :
    weightAll added = content.length := by
  cases adds with
  | text => rfl
  | blank => rfl
  | textAfterBlank => exact Nat.zero_add _

theorem QuoteRun.weight {tokens subTokens last : List Token} (run : QuoteRun tokens subTokens last) :
    weightAll subTokens + weightAll last ≤ weightAll tokens := by
  induction run with
  | stops tokens left =>
      rw [weightAll, Nat.zero_add]
      rcases left with rfl | rfl
      · exact Nat.le_refl _
      · exact Nat.zero_le _
  | takes next part adds later inductionHypothesis =>
      have lineWeight := next.weight
      have shorter := part.length_le
      rw [weightAll_append, adds.weight]
      omega

theorem quoteLoop_finished (expression : Regex) (tokens : List Token) :
    quoteLoop expression tokens ≠ .error .unfinished := by
  intro unfinished
  induction tokens using quoteLoop.induct expression with
  | case1 => cases unfinished
  | case2 token blank =>
      simp only [quoteLoop, if_pos blank] at unfinished
      cases unfinished
  | case3 token blank next later noText =>
      simp only [quoteLoop, if_pos blank, noText] at unfinished
      cases unfinished
  | case4 token blank next later line has unmatched =>
      simp only [quoteLoop, if_pos blank, has, unmatched] at unfinished
      cases unfinished
  | case5 token blank next later line has m matched marked inductionHypothesis =>
      simp only [quoteLoop, if_pos blank, has, matched, if_pos marked] at unfinished
      refine bind_finished inductionHypothesis ?_ unfinished
      exact fun _ => ok_finished _
  | case6 token blank next later line has m matched unmarked =>
      simp only [quoteLoop, if_pos blank, has, matched, if_neg unmarked] at unfinished
      cases unfinished
  | case7 token rest full noText =>
      rw [quoteLoop.eq_def] at unfinished
      simp only [if_neg full, noText] at unfinished
      cases unfinished
  | case8 token rest full line has unmatched =>
      rw [quoteLoop.eq_def] at unfinished
      simp only [if_neg full, has, unmatched] at unfinished
      cases unfinished
  | case9 token rest full line has m matched inductionHypothesis =>
      rw [quoteLoop.eq_def] at unfinished
      simp only [if_neg full, has, matched] at unfinished
      refine bind_finished inductionHypothesis ?_ unfinished
      exact fun _ => ok_finished _

theorem parseBlockQuote_finished (tokens : List Token) :
    parseBlockQuote tokens ≠ .error .unfinished := by
  cases tokens with
  | nil => exact ok_finished _
  | cons token rest =>
      rw [parseBlockQuote]
      split
      · exact ok_finished _
      · exact bind_finished (quoteLoop_finished _ _) (fun _ => ok_finished _)

/-! ## The pass -/

theorem parseBlock_ends (tokens : List Token) :
    Ends Fault.unfinished (fun rounds => parseBlock rounds tokens) := by
  simp only [parseBlock]
  split
  · exact .ok _
  · split
    · exact .ok _
    · apply Ends.bind ((lists_end tokens.length).1 tokens (Nat.le_refl _) false)
      intro list _
      cases list with
      | some list => exact .ok _
      | none =>
          apply Ends.const
          apply bind_finished (parseBlockQuote_finished tokens)
          intro quote
          cases quote with
          | some quote => exact ok_finished _
          | none => exact ok_finished _

/-- What is inside a block has fewer characters than the lines it has been made of. -/
theorem BlockFound.weight {rounds : Nat} {tokens subTokens last : List Token} {kind : ContainerKind}
    (found : BlockFound rounds tokens (.container kind subTokens) last) :
    weightAll subTokens < weightAll tokens := by
  cases found with
  | plain suffix plain => cases plain
  | list parsed => exact Nat.lt_of_le_of_lt (Nat.le_add_right _ _) (parseListBlock_weight parsed)
  | quote parsed =>
      rcases parseBlockQuote_cases parsed with ⟨token, rest, line, m, quoted, rfl, has, matched, run, same⟩
      cases same
      have shorter := quote_shorter matched
      have later := run.weight
      rw [weightAll, weightAll, weight_of_text? has]
      change (m.group 2).length + _ < _
      omega

/-- What is left behind a block has fewer tokens. -/
theorem BlockFound.count {rounds : Nat} {token : Token} {rest last : List Token} {block : Token}
    (found : BlockFound rounds (token :: rest) block last) :
    weightAll last.tail ≤ weightAll (token :: rest) ∧ countAll last.tail < countAll (token :: rest) := by
  have suffix : last.tail <:+ rest := by
    rcases List.suffix_cons_iff.mp found.suffix with rfl | inside
    · exact List.suffix_rfl
    · exact (List.tail_suffix last).trans inside
  have fewer := count_pos token
  have counts := countAll_suffix suffix
  refine ⟨weightAll_suffix (suffix.trans (List.suffix_cons _ _)), ?_⟩
  rw [countAll]
  omega

/-- The pass over the blocks ends, whatever the tokens are. -/
theorem processBlocksItems_ends (tokens : List Token) :
    Ends Fault.unfinished (fun rounds => processBlocksItems rounds tokens) := by
  generalize heavy : weightAll tokens = weight
  induction weight using Nat.strong_induction_on generalizing tokens with
  | _ weight lighter =>
      generalize many : countAll tokens = count
      induction count using Nat.strong_induction_on generalizing tokens with
      | _ count fewer =>
          have inside : forall others : List Token, weightAll others < weightAll tokens ->
              Ends Fault.unfinished (fun rounds => processBlocksItems rounds others) :=
            fun others less => lighter _ (heavy ▸ less) others rfl
          have onward : forall others : List Token,
              weightAll others ≤ weightAll tokens ∧ countAll others < countAll tokens ->
              Ends Fault.unfinished (fun rounds => processBlocksItems rounds others) := by
            rintro others ⟨less, shorter⟩
            rcases Nat.lt_or_eq_of_le less with less | same
            · exact inside others less
            · exact fewer _ (many ▸ shorter) others (same.trans heavy) rfl
          apply Ends.later
          cases tokens with
          | nil => exact .ok []
          | cons token rest =>
              have suffix := List.suffix_cons token rest
              have behind_ := onward rest ⟨weightAll_suffix suffix,
                Nat.lt_add_of_pos_left (count_pos token)⟩
              cases token with
              | text kind content =>
                  simp only [processBlocksItems, text?, Option.isSome_some, if_true]
                  apply Ends.bind (parseBlock_ends _)
                  rintro (_ | ⟨block, last⟩) ⟨rounds, parsed⟩
                  · exact behind_.bind fun _ _ => .ok _
                  · have found := parseBlock_cases parsed
                    have later := onward last.tail found.count
                    cases block with
                    | container kind subTokens =>
                        exact (inside subTokens found.weight).bind fun _ _ => later.bind fun _ _ => .ok _
                    | text kind text => exact later.bind fun _ _ => .ok _
                    | escapedCharacter c => exact later.bind fun _ _ => .ok _
                    | boldOrItalicMarker marker => exact later.bind fun _ _ => .ok _
                    | image altText url title => exact later.bind fun _ _ => .ok _
              | container kind subTokens =>
                  simp only [processBlocksItems, text?, Option.isSome_none, Bool.false_eq_true, if_false]
                  have inner : Ends Fault.unfinished (fun rounds => processBlocksItems rounds subTokens) := by
                    apply onward
                    rw [weightAll, Token.weight, countAll, Token.count]
                    omega
                  exact inner.bind fun _ _ => behind_.bind fun _ _ => .ok _
              | escapedCharacter c => exact behind_
              | boldOrItalicMarker marker => exact behind_
              | image altText url title => exact behind_

end Markdown
end Webserver
