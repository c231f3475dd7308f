import Webserver.Library.RegexShapes
import Webserver.Library.Rounds
import Webserver.Markdown.Lists

namespace Webserver
namespace Markdown

open Regex

/-!
# Runs of the list parser

`ListTurn` says what one round of `listLoop` can do, for every number of rounds that are
left: the round stops, it fails, or it adds something to the items and goes on behind
the lines that it has used.  What holds of a list follows from what every round keeps.
-/

/-- The next line, behind a blank line or not. -/
inductive LineAfter (line : Text) (rest : List Token) : List Token -> Prop
  | here {token : Token} (has : token.text? = some line) : LineAfter line rest (token :: rest)
  | behindBlank (blank : Token) {token : Token} (has : token.text? = some line) :
      LineAfter line rest (blank :: token :: rest)

theorem LineAfter.suffix {line : Text} {rest tokens : List Token} (next : LineAfter line rest tokens) :
    rest <:+ tokens := by
  cases next with
  | here has => exact List.suffix_cons _ _
  | behindBlank blank has => exact (List.suffix_cons _ _).trans (List.suffix_cons _ _)

theorem LineAfter.mem {line : Text} {rest tokens : List Token} (next : LineAfter line rest tokens) :
    Exists fun token : Token => token ∈ tokens ∧ token.text? = some line := by
  cases next with
  | here has => exact ⟨_, List.mem_cons_self, has⟩
  | behindBlank blank has => exact ⟨_, List.mem_cons_of_mem blank List.mem_cons_self, has⟩

/-- The character ends a line or is in the text of one of the tokens. -/
def ComesFrom (tokens : List Token) (symbol : Char) : Prop :=
  symbol = '\n' ∨ Exists fun token : Token => Exists fun line : Text =>
    token ∈ tokens ∧ token.text? = some line ∧ symbol ∈ line

theorem ComesFrom.subset {tokens more : List Token} {symbol : Char} (comes : ComesFrom tokens symbol)
    (inside : tokens ⊆ more) : ComesFrom more symbol := by
  rcases comes with newline | ⟨token, line, here, has, member⟩
  · exact Or.inl newline
  · exact Or.inr ⟨token, line, inside here, has, member⟩

theorem LineAfter.comesFrom {line : Text} {rest tokens : List Token} (next : LineAfter line rest tokens)
    {symbol : Char} (member : symbol ∈ line) : ComesFrom tokens symbol := by
  rcases next.mem with ⟨token, here, has⟩
  exact Or.inr ⟨token, line, here, has, member⟩

/-- What the loop for code inside a list can come to: it reads past the end, or it stops at
the code that it had and the text of lines that it takes. -/
def CodeFrom (codeBlock : Text) (tokens : List Token) (result : Except Fault (Text × List Token)) : Prop :=
  result = .error .undefinedBehavior ∨
    Exists fun text : Text => Exists fun last : List Token =>
      result = .ok (text, last) ∧ last <:+ tokens ∧
        forall symbol, symbol ∈ text -> symbol ∈ codeBlock ∨ ComesFrom tokens symbol

theorem CodeFrom.stops (codeBlock : Text) (tokens : List Token) :
    CodeFrom codeBlock tokens (.ok (codeBlock, tokens)) :=
  Or.inr ⟨codeBlock, tokens, rfl, List.suffix_rfl, fun _ member => Or.inl member⟩

/-- One more line of code. -/
theorem CodeFrom.onward {codeBlock more line : Text} {rest tokens : List Token}
    {result : Except Fault (Text × List Token)} (later : CodeFrom more rest result)
    (next : LineAfter line rest tokens)
    (origin : forall symbol, symbol ∈ more -> symbol ∈ codeBlock ∨ symbol = '\n' ∨ symbol ∈ line) :
    CodeFrom codeBlock tokens result := by
  rcases later with undefined | ⟨text, last, read, suffix, each⟩
  · exact Or.inl undefined
  · refine Or.inr ⟨text, last, read, suffix.trans next.suffix, fun symbol member => ?_⟩
    rcases each symbol member with early | comes
    · rcases origin symbol early with old | newline | inside
      · exact Or.inl old
      · exact Or.inr (Or.inl newline)
      · exact Or.inr (next.comesFrom inside)
    · exact Or.inr (comes.subset next.suffix.subset)

/-- A block of code inside a list ends, and it is made of the lines that it takes. -/
theorem listCodeLoop_cases (expression : Regex) (codeBlock : Text) (tokens : List Token) :
    CodeFrom codeBlock tokens (listCodeLoop expression codeBlock tokens) := by
  induction codeBlock, tokens using listCodeLoop.induct expression with
  | case1 codeBlock => exact .stops _ _
  | case2 codeBlock token blank =>
      left
      simp only [listCodeLoop, if_pos blank]
  | case3 codeBlock token blank next later noText =>
      left
      simp only [listCodeLoop, if_pos blank, noText]
  | case4 codeBlock token blank next later line has m matched inductionHypothesis =>
      simp only [listCodeLoop, if_pos blank, has, matched]
      refine inductionHypothesis.onward (.behindBlank token has) (fun symbol member => ?_)
      simp only [List.mem_append, List.mem_cons, List.not_mem_nil, or_false] at member
      rcases member with (old | newline | inside) | newline
      · exact Or.inl old
      · exact Or.inr (Or.inl newline)
      · exact Or.inr (Or.inr ((fullMatch_within matched 1).subset inside))
      · exact Or.inr (Or.inl newline)
  | case5 codeBlock token blank next later line has unmatched =>
      simp only [listCodeLoop, if_pos blank, has, unmatched]
      exact .stops _ _
  | case6 codeBlock token rest full noText =>
      rw [listCodeLoop.eq_def]
      simp only [if_neg full, noText]
      exact .stops _ _
  | case7 codeBlock token rest full line has m matched inductionHypothesis =>
      rw [listCodeLoop.eq_def]
      simp only [if_neg full, has, matched]
      refine inductionHypothesis.onward (.here has) (fun symbol member => ?_)
      simp only [List.mem_append, List.mem_cons, List.not_mem_nil, or_false] at member
      rcases member with (old | inside) | newline
      · exact Or.inl old
      · exact Or.inr (Or.inr ((fullMatch_within matched 1).subset inside))
      · exact Or.inr (Or.inl newline)
  | case8 codeBlock token rest full line has unmatched =>
      rw [listCodeLoop.eq_def]
      simp only [if_neg full, has, unmatched]
      exact .stops _ _

/-- The state has the same items. -/
def ListState.Kept (state counted : ListState) : Prop :=
  counted.subTokens = state.subTokens ∧ counted.subItemTokens = state.subItemTokens

/-- What a line can add to an item: the rest of its text, or a block of code. -/
inductive Added (tokens : List Token) : List Token -> List Token -> Prop
  | text {line content : Text} {rest : List Token} (next : LineAfter line rest tokens)
      (part : content <:+: line) : Added tokens rest [.rawText content]
  | textAfterBlank {line content : Text} {rest : List Token} (next : LineAfter line rest tokens)
      (part : content <:+: line) : Added tokens rest [.text .blankLine [], .rawText content]
  | code {indent : Nat} {line text : Text} {rest last : List Token} {m : Regex.Match}
      (next : LineAfter line rest tokens)
      (matched : (codeBlockAfterBlankLineExpression indent).fullMatch line = some m)
      (read : listCodeLoop (codeBlockAfterBlankLineExpression indent) (m.group 1 ++ ['\n']) rest =
        .ok (text, last)) : Added tokens last [.text .blankLine [], .text .codeBlock text]

theorem listCodeLoop_suffix {expression : Regex} {codeBlock text : Text} {tokens last : List Token}
    (read : listCodeLoop expression codeBlock tokens = .ok (text, last)) : last <:+ tokens := by
  rcases listCodeLoop_cases expression codeBlock tokens with undefined | ⟨_, _, readToo, suffix, _⟩
  · rw [undefined] at read
    cases read
  · rw [readToo] at read
    cases read
    exact suffix

theorem Added.suffix {tokens rest pushed : List Token} (added : Added tokens rest pushed) :
    rest <:+ tokens := by
  cases added with
  | text next part => exact next.suffix
  | textAfterBlank next part => exact next.suffix
  | code next matched read => exact (listCodeLoop_suffix read).trans next.suffix

/-- What a round of the loop does. -/
inductive ListTurn (shape : ListShape) (state : ListState) (tokens : List Token) :
    (Nat -> Except Fault (ListState × List Token)) -> Prop
  | stops {final : ListState} {last : List Token} (ended : final = state ∨ final = state.endItem)
      (left : last = tokens ∨ last = []) : ListTurn shape state tokens (fun _ => .ok (final, last))
  | fails {fault : Fault} (finished : fault ≠ .unfinished) :
      ListTurn shape state tokens (fun _ => .error fault)
  | item {counted : ListState} {line content : Text} {rest : List Token} (kept : state.Kept counted)
      (next : LineAfter line rest tokens) (part : content <:+: line) :
      ListTurn shape state tokens (fun rounds => listLoop rounds shape (counted.nextItem content) rest)
  | pushes {counted : ListState} {rest pushed : List Token} (kept : state.Kept counted)
      (added : Added tokens rest pushed) :
      ListTurn shape state tokens (fun rounds => listLoop rounds shape (counted.push pushed) rest)
  | sublist {counted : ListState} {token : Token} {rest : List Token} (kept : state.Kept counted)
      (suffix : token :: rest <:+ tokens) : ListTurn shape state tokens (fun rounds => do
        match <- parseListBlock rounds true (token :: rest) with
        | none => .error .assertionFailed
        | some (sublist, last) => listLoop rounds shape (counted.push [sublist]) last)

theorem listLoop_turn (shape : ListShape) (state : ListState) (tokens : List Token) :
    ListTurn shape state tokens (fun rounds => listLoop (rounds + 1) shape state tokens) := by
  cases tokens with
  | nil => exact .stops (Or.inl rfl) (Or.inl rfl)
  | cons token rest =>
      by_cases blank : token.isBlankLine = true
      · cases rest with
        | nil =>
            simp only [listLoop, if_pos blank]
            exact .stops (Or.inr rfl) (Or.inr rfl)
        | cons next later =>
            simp only [listLoop, if_pos blank]
            cases has : next.text? with
            | none => exact .stops (Or.inl rfl) (Or.inl rfl)
            | some line =>
                dsimp only
                split
                · exact .sublist ⟨rfl, rfl⟩ (List.suffix_cons _ _)
                · cases item : shape.nextItemExpression.fullMatch line with
                  | some m => exact .item ⟨rfl, rfl⟩ (.behindBlank token has) (fullMatch_within item 1)
                  | none =>
                      dsimp only
                      cases more : (continuedAfterBlankLineExpression shape.indent).fullMatch line with
                      | some m =>
                          exact .pushes ⟨rfl, rfl⟩
                            (.textAfterBlank (.behindBlank token has) (fullMatch_within more 1))
                      | none =>
                          dsimp only
                          cases code : (codeBlockAfterBlankLineExpression shape.indent).fullMatch line with
                          | none => exact .stops (Or.inr rfl) (Or.inl rfl)
                          | some m =>
                              dsimp only
                              rcases listCodeLoop_cases (codeBlockAfterBlankLineExpression shape.indent)
                                (m.group 1 ++ ['\n']) later with undefined | ⟨text, last, read, _⟩
                              · rw [undefined]
                                exact .fails (by decide)
                              · rw [read]
                                exact .pushes ⟨rfl, rfl⟩
                                  (.code (.behindBlank token has) code read)
      · simp only [listLoop, if_neg blank]
        cases has : token.text? with
        | none => exact .stops (Or.inr rfl) (Or.inl rfl)
        | some line =>
            dsimp only
            split
            · exact .sublist ⟨rfl, rfl⟩ List.suffix_rfl
            · cases item : shape.nextItemExpression.fullMatch line with
              | some m => exact .item ⟨rfl, rfl⟩ (.here has) (fullMatch_within item 1)
              | none =>
                  dsimp only
                  split
                  · exact .stops (Or.inr rfl) (Or.inl rfl)
                  · cases more : cContinuedItemExpression.fullMatch line with
                    | none => exact .fails (by decide)
                    | some m => exact .pushes ⟨rfl, rfl⟩ (.text (.here has) (fullMatch_within more 1))

/-- How a list begins, if one does. -/
inductive BlockTurn (sub : Bool) (tokens : List Token) :
    (Nat -> Except Fault (Option (Token × List Token))) -> Prop
  | none_ : BlockTurn sub tokens (fun _ => .ok none)
  | starts {token : Token} {rest : List Token} {line content : Text} {shape : ListShape}
      (here : tokens = token :: rest) (has : token.text? = some line)
      (started : listStart sub line = some (shape, content)) :
      BlockTurn sub tokens (fun rounds => do
        let (state, last) <- listLoop rounds shape ⟨[], [.rawText content], 1, false⟩ rest
        let state := state.endItem
        if 1 < state.itemCount || shape.indent ≠ 0 then
          .ok (some (listToken shape.type state.subTokens state.setParagraphMode, last))
        else .ok none)

theorem parseListBlock_turn (sub : Bool) (tokens : List Token) :
    BlockTurn sub tokens (fun rounds => parseListBlock (rounds + 1) sub tokens) := by
  cases tokens with
  | nil => exact .none_
  | cons token rest =>
      simp only [parseListBlock]
      split
      · exact .none_
      · cases started : token.text?.bind (listStart sub) with
        | none => exact .none_
        | some start =>
            rcases Option.bind_eq_some_iff.mp started with ⟨line, has, begins⟩
            exact .starts rfl has begins

/-- The rule for runs of the list parser that find something.  A list is read from the
first of the tokens on. -/
theorem parseListBlock_rule {listed : List Token -> Token -> List Token -> Prop}
    {read : ListState -> List Token -> ListState -> List Token -> Prop}
    (starts : forall {sub token rest line shape content state last}, token.text? = some line ->
      listStart sub line = some (shape, content) ->
      read ⟨[], [.rawText content], 1, false⟩ rest state last ->
      listed (token :: rest)
        (listToken shape.type state.endItem.subTokens state.endItem.setParagraphMode) last)
    (stops : forall {state tokens final last}, final = state ∨ final = ListState.endItem state ->
      last = tokens ∨ last = [] -> read state tokens final last)
    (item : forall {state counted tokens line content rest final last}, ListState.Kept state counted ->
      LineAfter line rest tokens -> content <:+: line ->
      read (counted.nextItem content) rest final last -> read state tokens final last)
    (pushes : forall {state counted tokens rest pushed final last}, ListState.Kept state counted ->
      Added tokens rest pushed -> read (counted.push pushed) rest final last ->
      read state tokens final last)
    (sublist : forall {state counted tokens token rest list between final last},
      ListState.Kept state counted -> token :: rest <:+ tokens -> between <:+ rest ->
      listed (token :: rest) list between -> read (counted.push [list]) between final last ->
      read state tokens final last)
    (rounds : Nat) :
    (forall {sub tokens list last}, parseListBlock rounds sub tokens = .ok (some (list, last)) ->
      (Exists fun token : Token => Exists fun rest : List Token => tokens = token :: rest ∧ last <:+ rest) ∧
        listed tokens list last) ∧
    (forall {shape state tokens final last}, listLoop rounds shape state tokens = .ok (final, last) ->
      last <:+ tokens ∧ read state tokens final last) := by
  induction rounds with
  | zero =>
      refine ⟨fun parsed => ?_, fun looped => ?_⟩
      · cases parsed
      · cases looped
  | succ rounds inductionHypothesis =>
      refine ⟨?_, ?_⟩
      · intro sub tokens list last parsed
        generalize turned : (fun rounds => parseListBlock (rounds + 1) sub tokens) = turn
        have blockTurn := parseListBlock_turn sub tokens
        rw [turned] at blockTurn
        have same := (congrFun turned rounds).symm.trans parsed
        cases blockTurn with
        | none_ => cases same
        | starts here has started =>
            rcases Rounds.bind_eq_ok same with ⟨⟨state, rest⟩, looped, ended⟩
            rcases inductionHypothesis.2 looped with ⟨suffix, run⟩
            subst here
            dsimp only at ended
            split at ended
            · cases ended
              exact ⟨⟨_, _, rfl, suffix⟩, starts has started run⟩
            · cases ended
      · intro shape state tokens final last looped
        generalize turned : (fun rounds => listLoop (rounds + 1) shape state tokens) = turn
        have listTurn := listLoop_turn shape state tokens
        rw [turned] at listTurn
        have same := (congrFun turned rounds).symm.trans looped
        cases listTurn with
        | stops ended left =>
            cases same
            refine ⟨?_, stops ended left⟩
            rcases left with rfl | rfl
            · exact List.suffix_rfl
            · exact List.nil_suffix
        | fails finished => cases same
        | item kept next part =>
            rcases inductionHypothesis.2 same with ⟨suffix, run⟩
            exact ⟨suffix.trans next.suffix, item kept next part run⟩
        | pushes kept added =>
            rcases inductionHypothesis.2 same with ⟨suffix, run⟩
            exact ⟨suffix.trans added.suffix, pushes kept added run⟩
        | sublist kept inner =>
            rcases Rounds.bind_eq_ok same with ⟨parsed, nested, ended⟩
            cases parsed with
            | none => cases ended
            | some found =>
                rcases inductionHypothesis.1 nested with ⟨⟨token, rest, here, between⟩, list⟩
                rcases inductionHypothesis.2 ended with ⟨suffix, run⟩
                cases here
                exact ⟨(suffix.trans between).trans ((List.suffix_cons _ _).trans inner),
                  sublist kept inner between list run⟩

end Markdown
end Webserver
