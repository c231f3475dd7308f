import Webserver.Markdown.Blocks
import Webserver.Markdown.ListRuns

namespace Webserver
namespace Markdown

open Regex

/-!
# Runs of the pass over the blocks

What the parsers find at the first of the tokens, and the rule for the pass: a block is
put in the place of the tokens that it has been read from, and the pass goes into the
containers.
-/

/-! ## What the parsers find -/

theorem text?_of_blockText {token : Token} {line : Text} (has : blockText token = some line) :
    token.text? = some line := by
  rw [blockText] at has
  split at has
  · exact has
  · cases has

theorem matched_of_blockText {token : Token} {regex : Regex} {m : Regex.Match}
    (found : (blockText token).bind regex.fullMatch = some m) :
    Exists fun line : Text => token.text? = some line ∧ regex.fullMatch line = some m := by
  rcases Option.bind_eq_some_iff.mp found with ⟨line, has, matched⟩
  exact ⟨line, text?_of_blockText has, matched⟩

/-- Headers, rules and blocks of code, with the text that they show. -/
inductive PlainBlock (tokens : List Token) : Token -> Prop
  | header {level : Nat} {text : Text} (small : 1 ≤ level ∧ level ≤ 6)
      (comes : forall symbol, symbol ∈ text -> ComesFrom tokens symbol) :
      PlainBlock tokens (.text (.header level) text)
  | rule : PlainBlock tokens (.text .htmlTag "hr/".toList)
  | code {text : Text} (comes : forall symbol, symbol ∈ text -> ComesFrom tokens symbol) :
      PlainBlock tokens (.text .codeBlock text)

/-- There are one to six hashes before a header. -/
theorem headerLevel {line : Text} {m : Regex.Match} (matched : cHashHeaders.fullMatch line = some m) :
    1 ≤ (m.group 1).length ∧ (m.group 1).length ≤ 6 := by
  rcases fullMatch_eq_some matched with ⟨final, passes, _, groups⟩
  cases passes with | seq passes atEnd =>
  cases passes with | seq passes hashes =>
  cases passes with | seq passes spaces =>
  cases passes with | seq passes title =>
  cases passes with | seq passes gap =>
  cases passes with | seq start level =>
  rcases level.of_group with ⟨inner, text, inside, reads, same⟩
  have has : m.group 1 = text := by
    rw [Regex.Match.group, groups, atEnd.lookup_of_avoids rfl, hashes.lookup_of_avoids rfl,
      spaces.lookup_of_avoids rfl, title.lookup_of_avoids rfl, gap.lookup_of_avoids rfl, same,
      List.lookup_cons, beq_self_eq_true]
    rfl
  cases inside with | seq first more =>
  rcases first.of_one with ⟨hash, readsFirst⟩
  rcases more.of_upTo with ⟨others, small, readsMore⟩
  have whole : text = [hash] ++ others := reads.upTo.symm.trans (readsFirst.1.trans readsMore.1).upTo
  rw [has, whole, List.length_append, List.length_singleton]
  omega

theorem parseHeader_cases {tokens last : List Token} {block : Token}
    (parsed : parseHeader tokens = some (block, last)) : last <:+ tokens ∧ PlainBlock tokens block := by
  cases tokens with
  | nil => cases parsed
  | cons token rest =>
      rw [parseHeader] at parsed
      cases has : blockText token with
      | none =>
          rw [has] at parsed
          cases parsed
      | some line =>
          have here : forall symbol, symbol ∈ line -> ComesFrom (token :: rest) symbol :=
            fun symbol member => Or.inr ⟨token, line, List.mem_cons_self, text?_of_blockText has, member⟩
          rw [has] at parsed
          dsimp only at parsed
          split at parsed
          · rename_i m matched
            cases parsed
            exact ⟨List.suffix_rfl, .header (headerLevel matched)
              (fun symbol member => here symbol ((fullMatch_within matched 2).subset member))⟩
          · split at parsed
            · cases parsed
            · split at parsed
              · cases parsed
              · cases parsed
                refine ⟨List.suffix_cons _ _, .header ?_ here⟩
                split
                · exact ⟨Nat.le_refl 1, by decide⟩
                · exact ⟨by decide, by decide⟩

theorem parseHorizontalRule_cases {tokens last : List Token} {block : Token}
    (parsed : parseHorizontalRule tokens = some (block, last)) :
    last <:+ tokens ∧ PlainBlock tokens block := by
  cases tokens with
  | nil => cases parsed
  | cons token rest =>
      rw [parseHorizontalRule] at parsed
      split at parsed
      · cases parsed
      · cases parsed
        exact ⟨List.suffix_rfl, .rule⟩

theorem isCodeBlockLine_cases {tokens rest : List Token} {line : Text}
    (found : isCodeBlockLine tokens = some (line, rest)) :
    rest <:+ tokens ∧ forall symbol, symbol ∈ line -> ComesFrom tokens symbol := by
  induction tokens generalizing line with
  | nil => cases found
  | cons token later inductionHypothesis =>
      rw [isCodeBlockLine] at found
      split at found
      · rcases Option.map_eq_some_iff.mp found with ⟨⟨inner, last⟩, more, same⟩
        cases same
        rcases inductionHypothesis more with ⟨suffix, comes⟩
        refine ⟨suffix.trans (List.suffix_cons _ _), fun symbol member => ?_⟩
        rcases List.mem_cons.mp member with newline | inside
        · exact Or.inl newline
        · exact (comes symbol inside).subset (List.subset_cons_self _ _)
      · split at found
        · cases found
        · rename_i whole has
          split at found
          · cases found
            exact ⟨List.suffix_cons _ _, fun symbol member => Or.inr ⟨token, whole, List.mem_cons_self,
              text?_of_blockText has, List.mem_of_mem_drop member⟩⟩
          · cases found

theorem codeBlockLoop_cases (tokens : List Token) : (codeBlockLoop tokens).2 <:+ tokens ∧
    forall symbol, symbol ∈ (codeBlockLoop tokens).1 -> ComesFrom tokens symbol := by
  induction tokens using codeBlockLoop.induct with
  | case1 tokens found =>
      rw [codeBlockLoop]
      split
      · exact ⟨List.suffix_rfl, fun _ member => absurd member List.not_mem_nil⟩
      · rename_i foundToo
        cases found.symm.trans foundToo
  | case2 tokens line rest found inductionHypothesis =>
      rw [codeBlockLoop]
      split
      · rename_i foundToo
        cases found.symm.trans foundToo
      · rename_i foundToo
        cases found.symm.trans foundToo
        rcases isCodeBlockLine_cases found with ⟨suffix, comes⟩
        refine ⟨inductionHypothesis.1.trans suffix, fun symbol member => ?_⟩
        rcases List.mem_append.mp member with early | late
        · exact comes symbol early
        · rcases List.mem_cons.mp late with newline | later
          · exact Or.inl newline
          · exact (inductionHypothesis.2 symbol later).subset suffix.subset

theorem parseCodeBlock_cases {tokens last : List Token} {block : Token}
    (parsed : parseCodeBlock tokens = some (block, last)) : last <:+ tokens ∧ PlainBlock tokens block := by
  cases tokens with
  | nil => cases parsed
  | cons token rest =>
      rw [parseCodeBlock] at parsed
      split at parsed
      · cases parsed
      · split at parsed
        · cases parsed
        · rename_i line between found
          cases parsed
          rcases isCodeBlockLine_cases found with ⟨suffix, comes⟩
          rcases codeBlockLoop_cases between with ⟨suffixToo, comesToo⟩
          refine ⟨suffixToo.trans suffix, .code (fun symbol member => ?_)⟩
          rcases List.mem_append.mp member with early | late
          · exact comes symbol early
          · rcases List.mem_cons.mp late with newline | later
            · exact Or.inl newline
            · exact (comesToo symbol later).subset suffix.subset

/-- What a line adds to a quote: its text behind the marks. -/
inductive QuoteAdded (content : Text) : List Token -> Prop
  | text : QuoteAdded content [.rawText content]
  | blank : QuoteAdded content [.text .blankLine content]
  | textAfterBlank : QuoteAdded content [.text .blankLine [], .rawText content]

/-- The lines that a quote takes, what it makes of them and what it leaves. -/
inductive QuoteRun : List Token -> List Token -> List Token -> Prop
  | stops (tokens : List Token) {last : List Token} (left : last = tokens ∨ last = []) :
      QuoteRun tokens [] last
  | takes {line content : Text} {rest tokens added subTokens last : List Token}
      (next : LineAfter line rest tokens) (part : content <:+: line) (adds : QuoteAdded content added)
      (later : QuoteRun rest subTokens last) : QuoteRun tokens (added ++ subTokens) last

theorem lineToken_added (content : Text) : QuoteAdded content [lineToken content] := by
  rw [lineToken]
  split
  · exact .blank
  · exact .text

theorem QuoteRun.of_quoteLoop {expression : Regex} {tokens subTokens last : List Token}
    (read : quoteLoop expression tokens = .ok (subTokens, last)) : QuoteRun tokens subTokens last := by
  induction tokens using quoteLoop.induct expression generalizing subTokens with
  | case1 =>
      cases read
      exact .stops _ (Or.inl rfl)
  | case2 token blank =>
      simp only [quoteLoop, if_pos blank] at read
      cases read
      exact .stops _ (Or.inr rfl)
  | case3 token blank next later noText =>
      simp only [quoteLoop, if_pos blank, noText] at read
      cases read
  | case4 token blank next later line has unmatched =>
      simp only [quoteLoop, if_pos blank, has, unmatched] at read
      cases read
      exact .stops _ (Or.inl rfl)
  | case5 token blank next later line has m matched marked inductionHypothesis =>
      simp only [quoteLoop, if_pos blank, has, matched, if_pos marked] at read
      rcases Rounds.bind_eq_ok read with ⟨⟨inner, rest⟩, looped, same⟩
      cases same
      exact .takes (.behindBlank token has) (fullMatch_within matched 2) .textAfterBlank
        (inductionHypothesis looped)
  | case6 token blank next later line has m matched unmarked =>
      simp only [quoteLoop, if_pos blank, has, matched, if_neg unmarked] at read
      cases read
      exact .stops _ (Or.inl rfl)
  | case7 token rest full noText =>
      rw [quoteLoop.eq_def] at read
      simp only [if_neg full, noText] at read
      cases read
  | case8 token rest full line has unmatched =>
      rw [quoteLoop.eq_def] at read
      simp only [if_neg full, has, unmatched] at read
      cases read
      exact .stops _ (Or.inl rfl)
  | case9 token rest full line has m matched inductionHypothesis =>
      rw [quoteLoop.eq_def] at read
      simp only [if_neg full, has, matched] at read
      rcases Rounds.bind_eq_ok read with ⟨⟨inner, more⟩, looped, same⟩
      cases same
      exact .takes (.here has) (fullMatch_within matched 2) (lineToken_added _) (inductionHypothesis looped)

theorem QuoteRun.suffix {tokens subTokens last : List Token} (run : QuoteRun tokens subTokens last) :
    last <:+ tokens := by
  induction run with
  | stops tokens left =>
      rcases left with rfl | rfl
      · exact List.suffix_rfl
      · exact List.nil_suffix
  | takes next part adds later inductionHypothesis => exact inductionHypothesis.trans next.suffix

/-- A quote starts with the text behind the marks of its first line. -/
theorem parseBlockQuote_cases {tokens last : List Token} {block : Token}
    (parsed : parseBlockQuote tokens = .ok (some (block, last))) :
    Exists fun token : Token => Exists fun rest : List Token => Exists fun line : Text =>
      Exists fun m : Regex.Match => Exists fun subTokens : List Token =>
        tokens = token :: rest ∧ token.text? = some line ∧ cBlockQuoteExpression.fullMatch line = some m ∧
          QuoteRun rest subTokens last ∧
          block = .container .blockQuote (.rawText (m.group 2) :: subTokens) := by
  cases tokens with
  | nil => cases parsed
  | cons token rest =>
      rw [parseBlockQuote] at parsed
      cases found : (blockText token).bind cBlockQuoteExpression.fullMatch with
      | none =>
          rw [found] at parsed
          cases parsed
      | some m =>
          rw [found] at parsed
          rcases Rounds.bind_eq_ok parsed with ⟨⟨subTokens, rest⟩, looped, same⟩
          rcases matched_of_blockText found with ⟨line, has, matched⟩
          cases same
          exact ⟨token, _, line, m, subTokens, rfl, has, matched, .of_quoteLoop looped, rfl⟩

/-- What the parsers find at the first of the tokens. -/
inductive BlockFound (rounds : Nat) (tokens : List Token) : Token -> List Token -> Prop
  | plain {block : Token} {last : List Token} (suffix : last <:+ tokens)
      (plain : PlainBlock tokens block) : BlockFound rounds tokens block last
  | list {block : Token} {last : List Token}
      (parsed : parseListBlock rounds false tokens = .ok (some (block, last))) :
      BlockFound rounds tokens block last
  | quote {block : Token} {last : List Token}
      (parsed : parseBlockQuote tokens = .ok (some (block, last))) : BlockFound rounds tokens block last

theorem parseBlock_cases {rounds : Nat} {tokens last : List Token} {block : Token}
    (parsed : parseBlock rounds tokens = .ok (some (block, last))) :
    BlockFound rounds tokens block last := by
  rw [parseBlock] at parsed
  split at parsed
  · rename_i header found
    cases parsed
    exact .plain (parseHeader_cases found).1 (parseHeader_cases found).2
  · split at parsed
    · rename_i rule found
      cases parsed
      exact .plain (parseHorizontalRule_cases found).1 (parseHorizontalRule_cases found).2
    · rcases Rounds.bind_eq_ok parsed with ⟨list, read, ended⟩
      cases list with
      | some list =>
          cases ended
          exact .list read
      | none =>
          rcases Rounds.bind_eq_ok ended with ⟨quote, readToo, endedToo⟩
          cases quote with
          | some quote =>
              cases endedToo
              exact .quote readToo
          | none =>
              rcases parseCodeBlock_cases (Except.ok.inj endedToo) with ⟨suffix, plain⟩
              exact .plain suffix plain

/-- A list is read from the first of the tokens on. -/
theorem parseListBlock_suffix {rounds : Nat} {sub : Bool} {tokens last : List Token} {list : Token}
    (parsed : parseListBlock rounds sub tokens = .ok (some (list, last))) :
    Exists fun token : Token => Exists fun rest : List Token => tokens = token :: rest ∧ last <:+ rest :=
  ((@parseListBlock_rule (fun _ _ _ => True) (fun _ _ _ _ => True) (fun _ _ _ => trivial)
    (fun _ _ => trivial) (fun _ _ _ _ => trivial) (fun _ _ _ => trivial)
    (fun _ _ _ _ _ => trivial) rounds).1 parsed).1

theorem BlockFound.suffix {rounds : Nat} {tokens last : List Token} {block : Token}
    (found : BlockFound rounds tokens block last) : last <:+ tokens := by
  cases found with
  | plain suffix plain => exact suffix
  | list parsed =>
      rcases parseListBlock_suffix parsed with ⟨token, rest, rfl, suffix⟩
      exact suffix.trans (List.suffix_cons _ _)
  | quote parsed =>
      rcases parseBlockQuote_cases parsed with ⟨token, rest, _, _, _, rfl, _, _, run, _⟩
      exact run.suffix.trans (List.suffix_cons _ _)

/-- The rule for the pass over the blocks. -/
theorem processBlocksItems_rule {motive : List Token -> List Token -> Prop} (done : motive [] [])
    (keeps : forall {token rest later}, motive rest later -> motive (token :: rest) (token :: later))
    (drops : forall {token rest later}, motive rest later -> motive (token :: rest) later)
    (enters : forall {kind subTokens inner rest later}, motive subTokens inner -> motive rest later ->
      motive (.container kind subTokens :: rest) (.container kind inner :: later))
    (finds : forall {rounds tokens block last later}, BlockFound rounds tokens block last ->
      motive last.tail later -> motive tokens (block :: later))
    (opens : forall {rounds tokens kind subTokens inner last later},
      BlockFound rounds tokens (.container kind subTokens) last -> motive subTokens inner ->
      motive last.tail later -> motive tokens (.container kind inner :: later))
    {rounds : Nat} {tokens result : List Token}
    (ended : processBlocksItems rounds tokens = .ok result) : motive tokens result := by
  induction rounds generalizing tokens result with
  | zero => cases ended
  | succ rounds inductionHypothesis =>
      cases tokens with
      | nil =>
          cases ended
          exact done
      | cons token rest =>
          rw [processBlocksItems.eq_def] at ended
          dsimp only at ended
          split at ended
          · rcases Rounds.bind_eq_ok ended with ⟨parsed, found, onward⟩
            cases parsed with
            | none =>
                rcases Rounds.bind_eq_ok onward with ⟨later, after, same⟩
                cases same
                exact keeps (inductionHypothesis after)
            | some block =>
                rcases block with ⟨block, last⟩
                have here := parseBlock_cases found
                cases block with
                | container kind subTokens =>
                    rcases Rounds.bind_eq_ok onward with ⟨inner, inside, onward⟩
                    rcases Rounds.bind_eq_ok onward with ⟨later, after, same⟩
                    cases same
                    exact opens here (inductionHypothesis inside) (inductionHypothesis after)
                | text kind text =>
                    rcases Rounds.bind_eq_ok onward with ⟨later, after, same⟩
                    cases same
                    exact finds here (inductionHypothesis after)
                | escapedCharacter c =>
                    rcases Rounds.bind_eq_ok onward with ⟨later, after, same⟩
                    cases same
                    exact finds here (inductionHypothesis after)
                | boldOrItalicMarker marker =>
                    rcases Rounds.bind_eq_ok onward with ⟨later, after, same⟩
                    cases same
                    exact finds here (inductionHypothesis after)
                | image altText url title =>
                    rcases Rounds.bind_eq_ok onward with ⟨later, after, same⟩
                    cases same
                    exact finds here (inductionHypothesis after)
          · cases token with
            | container kind subTokens =>
                rcases Rounds.bind_eq_ok ended with ⟨inner, inside, onward⟩
                rcases Rounds.bind_eq_ok onward with ⟨later, after, same⟩
                cases same
                exact enters (inductionHypothesis inside) (inductionHypothesis after)
            | text kind text => exact drops (inductionHypothesis ended)
            | escapedCharacter c => exact drops (inductionHypothesis ended)
            | boldOrItalicMarker marker => exact drops (inductionHypothesis ended)
            | image altText url title => exact drops (inductionHypothesis ended)

end Markdown
end Webserver
