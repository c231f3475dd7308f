import Webserver.Markdown.BlockRuns

namespace Webserver
namespace Markdown

open Regex

/-!
# Characters that a document does not have

The passes over the lines take texts apart and join them.  A character that is not in
the document is in no text that they make, as long as it is none of the few that they
add themselves.  Where the character is `<`, no HTML is recognized either, and the only
tags are those which the converter puts in for rules and line breaks.
-/

/-- The characters of the texts that the passes over the lines add. -/
def added : Text := " \nhbr/".toList

/-- The tags that the converter makes of other markup. -/
def ownTags : List Text := ["hr/".toList, "br/".toList, "/a".toList]

/-- A tag is one of the converter's own, and there are six kinds of headers. -/
def TextKind.Own (kind : TextKind) (text : Text) : Prop :=
  match kind with
  | .htmlTag => text ∈ ownTags
  | .header level => 1 ≤ level ∧ level ≤ 6
  | _ => True

namespace Token

/-- The character is in none of the token's texts; if it is `<`, then the tags in the
token are the converter's own. -/
inductive Lacks (c : Char) : Token -> Prop
  | text {kind : TextKind} {text : Text} (absent : c ∉ text) (own : c = '<' -> kind.Own text) :
      Lacks c (.text kind text)
  | container (kind : ContainerKind) {subTokens : List Token}
      (each : forall token, token ∈ subTokens -> Lacks c token) : Lacks c (.container kind subTokens)

theorem Lacks.plain {c : Char} {kind : TextKind} {text : Text} (absent : c ∉ text)
    (own : kind.Own text) : Lacks c (.text kind text) :=
  .text absent (fun _ => own)

theorem Lacks.absent {c : Char} {token : Token} {text : Text} (lacks : token.Lacks c)
    (has : token.text? = some text) : c ∉ text := by
  cases lacks with
  | text absent own => exact Option.some.inj has ▸ absent
  | container kind each => cases has

end Token

/-- The character is in no text of the tokens. -/
def AllLack (c : Char) (tokens : List Token) : Prop := forall token, token ∈ tokens -> token.Lacks c

namespace AllLack

variable {c : Char} {token : Token} {tokens more : List Token}

theorem nil : AllLack c [] := fun _ member => absurd member List.not_mem_nil

theorem cons (first : token.Lacks c) (rest : AllLack c tokens) : AllLack c (token :: tokens) :=
  fun _ member => (List.mem_cons.mp member).elim (fun same => same ▸ first) (rest _)

theorem head (all : AllLack c (token :: tokens)) : token.Lacks c := all token List.mem_cons_self

theorem tail (all : AllLack c (token :: tokens)) : AllLack c tokens :=
  fun _ member => all _ (List.mem_cons_of_mem token member)

theorem append (first : AllLack c tokens) (second : AllLack c more) : AllLack c (tokens ++ more) :=
  fun _ member => (List.mem_append.mp member).elim (first _) (second _)

theorem one (only : token.Lacks c) : AllLack c [token] := cons only nil

theorem subset (all : AllLack c tokens) (inside : more ⊆ tokens) : AllLack c more :=
  fun _ member => all _ (inside member)

end AllLack

/-! ## Reading -/

variable {c : Char}

theorem notMem_added {symbol : Char} (foreign : c ∉ added) (here : symbol ∈ added) : c ≠ symbol :=
  fun same => foreign (same ▸ here)

theorem skip_subset (c : Char) (input : Text) : skip c input ⊆ input := by
  cases input with
  | nil => exact List.Subset.refl _
  | cons next rest =>
      rw [skip]
      split
      · exact List.subset_cons_self next rest
      · exact List.Subset.refl _

theorem getlineFrom_lacks (foreign : c ∉ added) {initialWhitespace : Bool} {line input read rest : Text}
    (absent : c ∉ line) (absentToo : c ∉ input)
    (got : getlineFrom initialWhitespace line input = some (read, rest)) : c ∉ read ∧ c ∉ rest := by
  induction input generalizing initialWhitespace line with
  | nil =>
      rw [getlineFrom] at got
      split at got
      · cases got
      · cases got
        exact ⟨absent, absentToo⟩
  | cons next input inductionHypothesis =>
      rcases not_or.mp (fun member => absentToo (List.mem_cons.mpr member)) with ⟨other, onward⟩
      rw [getlineFrom] at got
      split at got
      · cases got
        exact ⟨absent, fun member => onward (skip_subset _ _ member)⟩
      · split at got
        · cases got
          exact ⟨absent, fun member => onward (skip_subset _ _ member)⟩
        · split at got
          · refine inductionHypothesis ?_ onward got
            intro member
            rcases List.mem_append.mp member with old | new
            · exact absent old
            · exact notMem_added foreign (by decide) (List.eq_of_mem_replicate new)
          · refine inductionHypothesis ?_ onward got
            intro member
            rcases List.mem_append.mp member with old | new
            · exact absent old
            · exact other (List.mem_singleton.mp new)

theorem notMem_documentLines (foreign : c ∉ added) {input : Text} (absent : c ∉ input) :
    forall line, line ∈ documentLines input -> c ∉ line := by
  induction input using documentLines.induct with
  | case1 input got =>
      intro line member
      rw [documentLines] at member
      split at member
      · cases member
      · rename_i gotToo
        rw [got] at gotToo
        cases gotToo
  | case2 input first rest got inductionHypothesis =>
      rcases getlineFrom_lacks foreign List.not_mem_nil absent got with ⟨here, later⟩
      intro line member
      rw [documentLines] at member
      split at member
      · cases member
      · rename_i gotToo
        rw [got] at gotToo
        cases gotToo
        rcases List.mem_cons.mp member with rfl | behind
        · exact here
        · exact inductionHypothesis later line behind

theorem lineToken_lacks {line : Text} (absent : c ∉ line) : (lineToken line).Lacks c := by
  rw [lineToken]
  split
  · exact .plain absent trivial
  · exact .plain absent trivial

theorem read_lacks (foreign : c ∉ added) {src : Text} (absent : c ∉ src) : AllLack c (read src) := by
  intro token member
  rcases List.mem_map.mp member with ⟨line, here, rfl⟩
  exact lineToken_lacks (notMem_documentLines foreign absent line here)

/-! ## HTML and references -/

theorem mergeMultilineHtmlTags_lacks (foreign : c ∉ added) {tokens : List Token} (lacks : AllLack c tokens) :
    AllLack c (mergeMultilineHtmlTags tokens) := by
  induction tokens using mergeMultilineHtmlTags.induct with
  | case1 => exact lacks
  | case2 token => exact lacks
  | case3 token next rest text more hasToo has whole inductionHypothesis =>
      rw [mergeMultilineHtmlTags, has, hasToo]
      dsimp only
      rw [if_pos whole]
      have absent : c ∉ text ++ ' ' :: more := by
        intro member
        rcases List.mem_append.mp member with first | second
        · exact lacks.head.absent has first
        · rcases List.mem_cons.mp second with same | later
          · exact notMem_added foreign (by decide) same
          · exact lacks.tail.head.absent hasToo later
      exact .cons (.plain absent trivial) (inductionHypothesis lacks.tail.tail)
  | case4 token next rest text more hasToo has apart inductionHypothesis =>
      rw [mergeMultilineHtmlTags, has, hasToo]
      dsimp only
      rw [if_neg apart]
      exact .cons lacks.head (inductionHypothesis lacks.tail)
  | case5 token next rest noText inductionHypothesis =>
      rw [mergeMultilineHtmlTags]
      split
      · rename_i text more has hasToo
        exact absurd hasToo (noText text more has)
      · exact .cons lacks.head (inductionHypothesis lacks.tail)

theorem parseInlineHtmlText_lacks (foreign : c ∉ added) (noTag : c ≠ '<') {src : Text} (absent : c ∉ src) :
    AllLack c (parseInlineHtmlText src) := by
  rcases matches_within cHtmlTokenExpression src with ⟨each, rest⟩
  intro token member
  rw [parseInlineHtmlText] at member
  rcases List.mem_append.mp member with matched | last
  · rcases List.mem_flatMap.mp matched with ⟨found, here, pieces⟩
    rcases each found here with ⟨before, _, groups⟩
    rcases List.mem_append.mp pieces with front | tag
    · split at front
      · cases front
      · rw [List.mem_singleton.mp front]
        exact .plain (fun inside => absent (before.subset inside)) trivial
    · rw [List.mem_singleton.mp tag]
      exact .text (fun inside => absent ((groups 1).subset inside)) (fun same => absurd same noTag)
  · rw [List.mem_singleton.mp last]
    refine .plain (fun inside => ?_) trivial
    rcases List.mem_append.mp inside with front | newline
    · exact absent (rest.subset front)
    · exact notMem_added foreign (by decide) (List.mem_singleton.mp newline)

theorem tagContents_lacks (foreign : c ∉ added) (noTag : c ≠ '<') {token : Token} (lacks : token.Lacks c) :
    AllLack c (tagContents token) := by
  rw [tagContents]
  split
  · rename_i text has
    exact parseInlineHtmlText_lacks foreign noTag (lacks.absent has)
  · exact .one lacks

theorem commentContents_lacks (foreign : c ∉ added) {token : Token} (lacks : token.Lacks c) :
    AllLack c (commentContents token) := by
  rw [commentContents]
  split
  · rename_i text has
    refine .one (.plain (fun inside => ?_) trivial)
    rcases List.mem_append.mp inside with front | newline
    · exact lacks.absent has front
    · exact notMem_added foreign (by decide) (List.mem_singleton.mp newline)
  · exact .one lacks

theorem htmlBlockLoop_suffix (contentsOf : Token -> List Token) (closes : Text -> Bool) (isFirst : Bool)
    (tokens : List Token) : (htmlBlockLoop contentsOf closes isFirst tokens).2.1 <:+ tokens := by
  induction tokens generalizing isFirst with
  | nil => exact List.suffix_rfl
  | cons token rest inductionHypothesis =>
      rw [htmlBlockLoop]
      split
      · exact List.suffix_rfl
      · exact (inductionHypothesis false).trans (List.suffix_cons token rest)

theorem htmlBlockLoop_lacks {contentsOf : Token -> List Token}
    (each : forall token, token.Lacks c -> AllLack c (contentsOf token)) (closes : Text -> Bool)
    (isFirst : Bool) {tokens : List Token} (lacks : AllLack c tokens) :
    AllLack c (htmlBlockLoop contentsOf closes isFirst tokens).1 := by
  induction tokens generalizing isFirst with
  | nil => exact lacks
  | cons token rest inductionHypothesis =>
      rw [htmlBlockLoop]
      split
      · exact each token lacks.head
      · exact (each token lacks.head).append (inductionHypothesis false lacks.tail)

/-- A block of HTML starts with `<`. -/
theorem mem_of_parseInlineHtml {token : Token} {rest last : List Token} {block : Token}
    (parsed : parseInlineHtml (token :: rest) = some (block, last)) :
    Exists fun line : Text => token.text? = some line ∧ '<' ∈ line := by
  have needed : forall {regex : Regex} {line : Text}, regex.needs (· == '<') = true ->
      '<' ∉ line -> regex.search line = none := by
    intro regex line needed absent
    refine search_eq_none_of_needs needed (fun symbol inside => ?_)
    rw [beq_eq_false_iff_ne]
    exact fun same => absent (same ▸ inside)
  rw [parseInlineHtml] at parsed
  split at parsed
  · cases parsed
  · rename_i line has
    refine ⟨line, has, ?_⟩
    by_contra absent
    have noTag : parseHtmlTag false line = none := by
      rw [parseHtmlTag, if_neg Bool.false_ne_true, needed (by decide) absent]
      rfl
    have noComment : isHtmlCommentStart line = false := by
      rw [isHtmlCommentStart, needed (by decide) absent]
      rfl
    dsimp only at parsed
    rw [noTag, noComment, Option.any_none, if_neg Bool.false_ne_true, if_neg Bool.false_ne_true] at parsed
    cases parsed

theorem parseInlineHtml_cases {tokens last : List Token} {block : Token}
    (parsed : parseInlineHtml tokens = some (block, last)) :
    last <:+ tokens ∧ Exists fun contentsOf : Token -> List Token => Exists fun closes : Text -> Bool =>
      (contentsOf = tagContents ∨ contentsOf = commentContents) ∧
        block = .container .inlineHtmlBlock (htmlBlockLoop contentsOf closes true tokens).1 := by
  cases tokens with
  | nil => cases parsed
  | cons token rest =>
      rw [parseInlineHtml] at parsed
      split at parsed
      · cases parsed
      · dsimp only at parsed
        split at parsed
        · split at parsed
          · cases parsed
            exact ⟨htmlBlockLoop_suffix _ _ _ _, _, _, Or.inl rfl, rfl⟩
          · cases parsed
        · split at parsed
          · cases parsed
            exact ⟨htmlBlockLoop_suffix _ _ _ _, _, _, Or.inr rfl, rfl⟩
          · cases parsed

theorem parseInlineHtml_lacks (foreign : c ∉ added) {tokens last : List Token} {block : Token}
    (lacks : AllLack c tokens) (parsed : parseInlineHtml tokens = some (block, last)) :
    block.Lacks c := by
  have noTag : c ≠ '<' := by
    rintro rfl
    cases tokens with
    | nil => cases parsed
    | cons token rest =>
        rcases mem_of_parseInlineHtml parsed with ⟨line, has, member⟩
        exact lacks.head.absent has member
  rcases parseInlineHtml_cases parsed with ⟨_, contentsOf, closes, kinds, rfl⟩
  refine .container _ (htmlBlockLoop_lacks (fun token lacks => ?_) closes true lacks)
  rcases kinds with rfl | rfl
  · exact tagContents_lacks foreign noTag lacks
  · exact commentContents_lacks foreign lacks

/-- The character is in no address and no title. -/
def LinkIds.Lacks (c : Char) (ids : LinkIds) : Prop :=
  forall entry, entry ∈ ids.table -> c ∉ entry.2.url ∧ c ∉ entry.2.title

theorem LinkIds.Lacks.add {ids : LinkIds} (lacks : ids.Lacks c) (id : Text) {url title : Text}
    (absent : c ∉ url) (absentToo : c ∉ title) : (ids.add id url title).Lacks c := by
  rw [LinkIds.add]
  split
  · exact lacks
  · intro entry member
    rcases List.mem_append.mp member with old | new
    · exact lacks entry old
    · rw [List.mem_singleton.mp new]
      exact ⟨absent, absentToo⟩

theorem LinkIds.Lacks.find {ids : LinkIds} (lacks : ids.Lacks c) {id : Text} {target : Target}
    (found : ids.find id = some target) : c ∉ target.url ∧ c ∉ target.title := by
  rcases List.lookup_eq_some_iff.mp found with ⟨first, later, split, _⟩
  apply lacks (LinkIds.scrubKey id, target)
  rw [split]
  exact List.mem_append_right _ List.mem_cons_self

/-- A definition of a link adds texts of its lines to the table. -/
theorem parseReference_cases {idTable ids : LinkIds} {tokens last : List Token}
    (parsed : parseReference idTable tokens = some (ids, last)) :
    last <:+ tokens ∧ Exists fun id : Text => Exists fun url : Text => Exists fun title : Text =>
      ids = idTable.add id url title ∧ forall c, AllLack c tokens -> c ∉ url ∧ c ∉ title := by
  cases tokens with
  | nil => cases parsed
  | cons token rest =>
      rw [parseReference] at parsed
      split at parsed
      · cases parsed
      · rename_i m found
        rcases Option.bind_eq_some_iff.mp found with ⟨line, has, matched⟩
        have groups : forall (c : Char) (number : Nat), AllLack c (token :: rest) ->
            c ∉ m.group number :=
          fun c number lacks inside => lacks.head.absent has ((fullMatch_within matched number).subset inside)
        dsimp only at parsed
        split at parsed
        · cases parsed
          exact ⟨List.suffix_rfl, _, _, _, rfl, fun c lacks => ⟨groups c 2 lacks, groups c 4 lacks⟩⟩
        · split at parsed
          · cases parsed
            exact ⟨List.suffix_rfl, _, _, _, rfl, fun c lacks => ⟨groups c 2 lacks, groups c 5 lacks⟩⟩
          · split at parsed
            · cases parsed
              exact ⟨List.suffix_rfl, _, _, _, rfl,
                fun c lacks => ⟨groups c 2 lacks, List.not_mem_nil⟩⟩
            · rename_i next later
              split at parsed
              · cases parsed
                exact ⟨List.suffix_rfl, _, _, _, rfl,
                  fun c lacks => ⟨groups c 2 lacks, List.not_mem_nil⟩⟩
              · rename_i title foundToo
                rcases Option.bind_eq_some_iff.mp foundToo with ⟨more, hasToo, matchedToo⟩
                cases parsed
                refine ⟨List.suffix_cons _ _, _, _, _, rfl, fun c lacks => ⟨groups c 2 lacks, ?_⟩⟩
                intro inside
                apply lacks.tail.head.absent hasToo
                split at inside
                · exact (fullMatch_within matchedToo 2).subset inside
                · exact (fullMatch_within matchedToo 3).subset inside

/-- The rule for the pass: a line starts a block, starts a definition, or is kept. -/
theorem processInlineHtmlAndReferences_rule {motive : LinkIds -> List Token -> List Token × LinkIds -> Prop}
    (done : forall ids, motive ids [] ([], ids))
    (block : forall ids tokens block last later, parseInlineHtml tokens = some (block, last) ->
      motive ids last.tail later -> motive ids tokens (block :: later.1, later.2))
    (reference : forall ids more tokens last later, parseReference ids tokens = some (more, last) ->
      motive more last.tail later -> motive ids tokens later)
    (kept : forall ids token rest later, motive ids rest later ->
      motive ids (token :: rest) (token :: later.1, later.2))
    (back : Option Token) (ids : LinkIds) (tokens : List Token) :
    motive ids tokens (processInlineHtmlAndReferences back ids tokens) := by
  induction back, ids, tokens using processInlineHtmlAndReferences.induct with
  | case1 back ids =>
      rw [processInlineHtmlAndReferences]
      exact done ids
  | case2 back ids token rest has html last found inductionHypothesis =>
      rw [processInlineHtmlAndReferences, if_pos has]
      split
      · rename_i htmlToo lastToo foundToo
        cases found.symm.trans foundToo
        refine block ids _ html last _ ?_ inductionHypothesis
        split at foundToo
        · exact foundToo
        · cases foundToo
      · rename_i foundToo
        cases found.symm.trans foundToo
  | case3 back ids token rest has noBlock more last found inductionHypothesis =>
      rw [processInlineHtmlAndReferences, if_pos has]
      split
      · rename_i foundToo
        cases noBlock.symm.trans foundToo
      · split
        · rename_i moreToo lastToo foundToo
          cases found.symm.trans foundToo
          exact reference ids more _ last _ found inductionHypothesis
        · rename_i foundToo
          cases found.symm.trans foundToo
  | case4 back ids token rest has noBlock noReference inductionHypothesis =>
      rw [processInlineHtmlAndReferences, if_pos has]
      split
      · rename_i foundToo
        cases noBlock.symm.trans foundToo
      · split
        · rename_i foundToo
          cases noReference.symm.trans foundToo
        · exact kept ids token rest _ inductionHypothesis
  | case5 back ids token rest noText inductionHypothesis =>
      rw [processInlineHtmlAndReferences, if_neg noText]
      exact kept ids token rest _ inductionHypothesis

theorem processInlineHtmlAndReferences_lacks (foreign : c ∉ added) (back : Option Token)
    (idTable : LinkIds) (tokens : List Token) : AllLack c tokens -> idTable.Lacks c ->
      AllLack c (processInlineHtmlAndReferences back idTable tokens).1 ∧
        (processInlineHtmlAndReferences back idTable tokens).2.Lacks c := by
  apply processInlineHtmlAndReferences_rule
    (motive := fun idTable tokens result => AllLack c tokens -> idTable.Lacks c ->
      AllLack c result.1 ∧ result.2.Lacks c)
  · exact fun ids lacks known => ⟨lacks, known⟩
  · intro ids tokens block last later parsed inductionHypothesis lacks known
    have suffix := (List.tail_suffix last).trans (parseInlineHtml_cases parsed).1
    rcases inductionHypothesis (lacks.subset suffix.subset) known with ⟨result, table⟩
    exact ⟨.cons (parseInlineHtml_lacks foreign lacks parsed) result, table⟩
  · intro ids more tokens last later parsed inductionHypothesis lacks known
    rcases parseReference_cases parsed with ⟨suffix, id, url, title, rfl, texts⟩
    have suffixToo := (List.tail_suffix last).trans suffix
    exact inductionHypothesis (lacks.subset suffixToo.subset)
      (known.add id (texts c lacks).1 (texts c lacks).2)
  · intro ids token rest later inductionHypothesis lacks known
    rcases inductionHypothesis lacks.tail known with ⟨result, table⟩
    exact ⟨.cons lacks.head result, table⟩

/-! ## Blocks -/

theorem not_comesFrom (foreign : c ∉ added) {tokens : List Token} (lacks : AllLack c tokens) :
    ¬ ComesFrom tokens c := by
  rintro (newline | ⟨token, line, here, has, member⟩)
  · exact notMem_added foreign (by decide) newline
  · exact (lacks token here).absent has member

/-- A text whose characters come from the tokens. -/
theorem notMem_of_comesFrom (foreign : c ∉ added) {tokens : List Token} (lacks : AllLack c tokens)
    {text : Text} (comes : forall symbol, symbol ∈ text -> ComesFrom tokens symbol) : c ∉ text :=
  fun member => not_comesFrom foreign lacks (comes c member)

theorem PlainBlock.lacks (foreign : c ∉ added) {tokens : List Token} {block : Token}
    (plain : PlainBlock tokens block) (lacks : AllLack c tokens) : block.Lacks c := by
  cases plain with
  | header small comes => exact .plain (notMem_of_comesFrom foreign lacks comes) small
  | rule =>
      refine .plain (fun member => foreign ?_) (show _ ∈ ownTags by decide)
      exact (show "hr/".toList ⊆ added by decide) member
  | code comes => exact .plain (notMem_of_comesFrom foreign lacks comes) trivial

theorem LineAfter.notMem {line : Text} {rest tokens : List Token} (next : LineAfter line rest tokens)
    (lacks : AllLack c tokens) : c ∉ line := by
  rcases next.mem with ⟨token, here, has⟩
  exact (lacks token here).absent has

theorem rawText_lacks {text content : Text} (absent : c ∉ text) (part : content <:+: text) :
    (Token.rawText content).Lacks c :=
  .plain (fun member => absent (part.subset member)) trivial

theorem blankLine_lacks : (Token.text .blankLine []).Lacks c := .plain List.not_mem_nil trivial

theorem Added.lacks (foreign : c ∉ added) {tokens rest pushed : List Token} (adds : Added tokens rest pushed)
    (lacks : AllLack c tokens) : AllLack c pushed := by
  cases adds with
  | text next part => exact .one (rawText_lacks (next.notMem lacks) part)
  | textAfterBlank next part =>
      exact .cons blankLine_lacks (.one (rawText_lacks (next.notMem lacks) part))
  | @code indent line text between last m next matched read =>
      rcases listCodeLoop_cases (codeBlockAfterBlankLineExpression indent) (m.group 1 ++ ['\n']) between
        with undefined | ⟨_, _, readToo, _, each⟩
      · rw [undefined] at read
        cases read
      · rw [readToo] at read
        cases read
        refine .cons blankLine_lacks (.one (.plain (fun member => ?_) trivial))
        rcases each c member with early | comes
        · rcases List.mem_append.mp early with inside | newline
          · exact next.notMem lacks ((fullMatch_within matched 1).subset inside)
          · exact notMem_added foreign (by decide) (List.mem_singleton.mp newline)
        · exact not_comesFrom foreign lacks (comes.subset next.suffix.subset)

/-- The character is in no item. -/
def ListState.Lacks (c : Char) (state : ListState) : Prop :=
  AllLack c state.subTokens ∧ AllLack c state.subItemTokens

theorem ListState.Lacks.kept {state counted : ListState} (lacks : state.Lacks c)
    (kept : state.Kept counted) : counted.Lacks c :=
  ⟨kept.1.symm ▸ lacks.1, kept.2.symm ▸ lacks.2⟩

theorem ListState.Lacks.push {state : ListState} (lacks : state.Lacks c) {tokens : List Token}
    (more : AllLack c tokens) : (state.push tokens).Lacks c :=
  ⟨lacks.1, lacks.2.append more⟩

theorem ListState.Lacks.endItem {state : ListState} (lacks : state.Lacks c) : state.endItem.Lacks c := by
  rw [ListState.endItem]
  split
  · exact lacks
  · exact ⟨lacks.1.append (.one (.container _ lacks.2)), .nil⟩

theorem listToken_lacks (type : ListType) {subTokens : List Token} (lacks : AllLack c subTokens)
    (paragraphMode : Bool) : (listToken type subTokens paragraphMode).Lacks c := by
  refine .container _ ?_
  split
  · intro token member
    rcases List.mem_map.mp member with ⟨item, here, rfl⟩
    have inside := lacks item here
    split
    · cases inside with
      | container kind each => exact .container _ each
    · exact inside
  · exact lacks

theorem listStart_part {sub : Bool} {line content : Text} {shape : ListShape}
    (started : listStart sub line = some (shape, content)) : content <:+: line := by
  rw [listStart] at started
  split at started
  · rename_i m matched
    dsimp only at started
    split at started
    · cases started
      exact fullMatch_within matched 3
    · cases started
  · split at started
    · rename_i m matched
      dsimp only at started
      split at started
      · cases started
        exact fullMatch_within matched 3
      · cases started
    · cases started

theorem parseListBlock_lacks (foreign : c ∉ added) {rounds : Nat} {sub : Bool} {tokens last : List Token}
    {list : Token} (parsed : parseListBlock rounds sub tokens = .ok (some (list, last)))
    (lacks : AllLack c tokens) : list.Lacks c := by
  refine ((@parseListBlock_rule (fun tokens list _ => AllLack c tokens -> list.Lacks c)
    (fun state tokens final _ => AllLack c tokens -> state.Lacks c -> final.Lacks c)
    ?_ ?_ ?_ ?_ ?_ rounds).1 parsed).2 lacks
  · intro sub token rest line shape content state last has started run lacks
    have item := rawText_lacks (lacks.head.absent has) (listStart_part started)
    exact listToken_lacks _ (run lacks.tail ⟨.nil, .one item⟩).endItem.1 _
  · intro state tokens final last ended left lacks known
    rcases ended with rfl | rfl
    · exact known
    · exact known.endItem
  · intro state counted tokens line content rest final last kept next part run lacks known
    have item := rawText_lacks (next.notMem lacks) part
    exact run (lacks.subset next.suffix.subset) ((known.kept kept).endItem.push (.one item))
  · intro state counted tokens rest pushed final last kept adds run lacks known
    exact run (lacks.subset adds.suffix.subset) ((known.kept kept).push (adds.lacks foreign lacks))
  · intro state counted tokens token rest list between final last kept inner suffix listed run lacks known
    have inside := lacks.subset inner.subset
    exact run (inside.tail.subset suffix.subset) ((known.kept kept).push (.one (listed inside)))

theorem QuoteRun.lacks {tokens subTokens last : List Token} (run : QuoteRun tokens subTokens last)
    (lacks : AllLack c tokens) : AllLack c subTokens := by
  induction run with
  | stops tokens left => exact .nil
  | takes next part adds later inductionHypothesis =>
      refine .append ?_ (inductionHypothesis (lacks.subset next.suffix.subset))
      have absent := next.notMem lacks
      cases adds with
      | text => exact .one (rawText_lacks absent part)
      | blank => exact .one (.plain (fun member => absent (part.subset member)) trivial)
      | textAfterBlank => exact .cons blankLine_lacks (.one (rawText_lacks absent part))

theorem BlockFound.lacks (foreign : c ∉ added) {rounds : Nat} {tokens last : List Token} {block : Token}
    (found : BlockFound rounds tokens block last) (lacks : AllLack c tokens) : block.Lacks c := by
  cases found with
  | plain suffix plain => exact plain.lacks foreign lacks
  | list parsed => exact parseListBlock_lacks foreign parsed lacks
  | quote parsed =>
      rcases parseBlockQuote_cases parsed with ⟨token, rest, line, m, subTokens, rfl, has, matched, run, rfl⟩
      have first := rawText_lacks (lacks.head.absent has) (fullMatch_within matched 2)
      exact .container _ (AllLack.cons first (run.lacks lacks.tail))

theorem processBlocksItems_lacks (foreign : c ∉ added) {rounds : Nat} {tokens result : List Token}
    (ended : processBlocksItems rounds tokens = .ok result) : AllLack c tokens -> AllLack c result := by
  refine @processBlocksItems_rule (fun tokens result => AllLack c tokens -> AllLack c result)
    ?_ ?_ ?_ ?_ ?_ ?_ rounds tokens result ended
  · exact fun lacks => lacks
  · exact fun run lacks => .cons lacks.head (run lacks.tail)
  · exact fun run lacks => run lacks.tail
  · intro kind subTokens inner rest later inside run lacks
    cases lacks.head with
    | container kind each => exact .cons (.container _ (inside each)) (run lacks.tail)
  · intro rounds tokens block last later found run lacks
    have suffix := (List.tail_suffix last).trans found.suffix
    exact .cons (found.lacks foreign lacks) (run (lacks.subset suffix.subset))
  · intro rounds tokens kind subTokens inner last later found inside run lacks
    have suffix := (List.tail_suffix last).trans found.suffix
    cases found.lacks foreign lacks with
    | container kind each =>
        exact .cons (.container _ (inside each)) (run (lacks.subset suffix.subset))

/-! ## Paragraphs -/

theorem flushParagraph_lacks (noParagraphs : Bool) {paragraphText : Text} (absent : c ∉ paragraphText) :
    AllLack c (flushParagraph noParagraphs paragraphText) := by
  have raw : (Token.rawText paragraphText).Lacks c := rawText_lacks absent List.infix_rfl
  rw [flushParagraph]
  split
  · exact .nil
  · split
    · exact .one raw
    · exact .one (.container _ (AllLack.one raw))

theorem text?_of_paragraphLine {token : Token} {line : Text} (has : paragraphLine token = some line) :
    token.text? = some line := by
  rw [paragraphLine] at has
  split at has
  · exact has
  · cases has

theorem joinParagraphLines_lacks (foreign : c ∉ added) (noParagraphs : Bool) {paragraphText : Text}
    {tokens : List Token} (absent : c ∉ paragraphText) (lacks : AllLack c tokens) :
    AllLack c (joinParagraphLines noParagraphs paragraphText tokens) := by
  have joins : forall {paragraphText line : Text}, c ∉ paragraphText -> c ∉ line ->
      c ∉ (if paragraphText = [] then [] else paragraphText ++ [' ']) ++ line := by
    intro paragraphText line absent absentToo member
    rcases List.mem_append.mp member with early | late
    · split at early
      · cases early
      · rcases List.mem_append.mp early with old | blank
        · exact absent old
        · exact notMem_added foreign (by decide) (List.mem_singleton.mp blank)
    · exact absentToo late
  have lineBreak : (Token.text .htmlTag "br/".toList).Lacks c := by
    refine .plain (fun member => foreign ?_) (show _ ∈ ownTags by decide)
    exact (show "br/".toList ⊆ added by decide) member
  induction paragraphText, tokens using joinParagraphLines.induct with
  | case1 paragraphText => exact flushParagraph_lacks noParagraphs absent
  | case2 paragraphText token rest noLine inductionHypothesis =>
      rw [joinParagraphLines, noLine]
      exact (flushParagraph_lacks noParagraphs absent).append
        (.cons lacks.head (inductionHypothesis List.not_mem_nil lacks.tail))
  | case3 paragraphText token rest line has m matched inductionHypothesis =>
      have absentToo : c ∉ m.group 1 := fun member =>
        lacks.head.absent (text?_of_paragraphLine has) ((fullMatch_within matched 1).subset member)
      rw [joinParagraphLines, has]
      dsimp only
      rw [matched]
      exact (flushParagraph_lacks noParagraphs (joins absent absentToo)).append
        (.cons lineBreak (inductionHypothesis List.not_mem_nil lacks.tail))
  | case4 paragraphText token rest line has joined unmatched inductionHypothesis =>
      have absentToo : c ∉ line := lacks.head.absent (text?_of_paragraphLine has)
      rw [joinParagraphLines, has]
      dsimp only
      rw [unmatched]
      exact inductionHypothesis (joins absent absentToo) lacks.tail

mutual

theorem processParagraphLines_lacks (foreign : c ∉ added) :
    (token : Token) -> token.Lacks c -> (processParagraphLines token).Lacks c
  | .container kind subTokens, lacks => by
      cases lacks with
      | container kind each =>
          exact .container _ (joinParagraphLines_lacks foreign _ List.not_mem_nil
            (processEachParagraphLines_lacks foreign subTokens each))
  | .text kind text, lacks => lacks
  | .escapedCharacter symbol, lacks => lacks
  | .boldOrItalicMarker marker, lacks => lacks
  | .image altText url title, lacks => lacks

theorem processEachParagraphLines_lacks (foreign : c ∉ added) :
    (tokens : List Token) -> AllLack c tokens -> AllLack c (processEachParagraphLines tokens)
  | [], lacks => lacks
  | token :: rest, lacks =>
      .cons (processParagraphLines_lacks foreign token lacks.head)
        (processEachParagraphLines_lacks foreign rest lacks.tail)

end

/-- What the passes over the lines make of a document does not have the character. -/
theorem passes_lack (foreign : c ∉ added) {src : Text} (absent : c ∉ src) {rounds : Nat}
    {blocks : List Token}
    (ended : processBlocksItems rounds
      (processInlineHtmlAndReferences none ⟨[]⟩ (mergeMultilineHtmlTags (read src))).1 = .ok blocks) :
    AllLack c (joinParagraphLines false [] (processEachParagraphLines blocks)) ∧
      (processInlineHtmlAndReferences none ⟨[]⟩ (mergeMultilineHtmlTags (read src))).2.Lacks c := by
  have lines := mergeMultilineHtmlTags_lacks foreign (read_lacks foreign absent)
  have known : LinkIds.Lacks c ⟨[]⟩ := fun _ member => absurd member List.not_mem_nil
  rcases processInlineHtmlAndReferences_lacks foreign none ⟨[]⟩ _ lines known with ⟨lacks, table⟩
  have processed := processBlocksItems_lacks foreign ended lacks
  exact ⟨joinParagraphLines_lacks foreign false List.not_mem_nil
    (processEachParagraphLines_lacks foreign blocks processed), table⟩

end Markdown
end Webserver
