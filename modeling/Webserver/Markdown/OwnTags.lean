import Webserver.Markdown.Document
import Webserver.Markdown.EmphasisSearch
import Webserver.Markdown.SpanAbsence

namespace Webserver
namespace Markdown

open Regex

/-!
# The tags in the output

A document without `<` cannot bring any HTML of its own into the page: every `<` in the
output begins a tag that the converter writes for some markup.
-/

/-! ## Markers -/

/-- A text or a marker without `<`. -/
def Token.Plain : Token -> Prop
  | .text (.rawText true) content => '<' ∉ content
  | .boldOrItalicMarker marker => marker.tokenCharacter ≠ '<'
  | _ => False

def AllPlain (tokens : List Token) : Prop := forall token, token ∈ tokens -> token.Plain

theorem AllPlain.cons {token : Token} {tokens : List Token} (first : token.Plain) (rest : AllPlain tokens) :
    AllPlain (token :: tokens) :=
  fun _ member => (List.mem_cons.mp member).elim (fun same => same ▸ first) (rest _)

theorem AllPlain.append {tokens more : List Token} (first : AllPlain tokens) (second : AllPlain more) :
    AllPlain (tokens ++ more) :=
  fun _ member => (List.mem_append.mp member).elim (first _) (second _)

theorem AllPlain.head {token : Token} {tokens : List Token} (all : AllPlain (token :: tokens)) : token.Plain :=
  all token List.mem_cons_self

theorem AllPlain.tail {token : Token} {tokens : List Token} (all : AllPlain (token :: tokens)) :
    AllPlain tokens :=
  fun _ member => all _ (List.mem_cons_of_mem token member)

theorem allPlain_nil : AllPlain [] := fun _ member => absurd member List.not_mem_nil

theorem allPlain_rawTokens {text : Text} (absent : '<' ∉ text) : AllPlain (rawTokens text) := by
  unfold rawTokens
  split
  · exact allPlain_nil
  · exact .cons absent allPlain_nil

theorem plain_markerToken (openMarker : Bool) {run : Text} (absent : '<' ∉ run) :
    (markerToken openMarker run).Plain := by
  change run.headD '\x00' ≠ '<'
  cases run with
  | nil => decide
  | cons c rest => exact fun same => absent (same ▸ List.mem_cons_self)

theorem allPlain_readMarkers {src : Text} (absent : '<' ∉ src) : AllPlain (readMarkers src) := by
  rcases matches_within cEmphasisExpression src with ⟨parts, rest⟩
  refine .append ?_ (allPlain_rawTokens fun member => absent (rest.subset member))
  intro token member
  rcases List.mem_flatMap.mp member with ⟨m, here, inside⟩
  rcases parts m here with ⟨before, _, groups⟩
  have group : forall number, '<' ∉ m.group number :=
    fun number member => absent ((groups number).subset member)
  refine AllPlain.append (allPlain_rawTokens fun member => absent (before.subset member)) ?_ token inside
  rw [emphasisTokens]
  split
  · exact .cons (plain_markerToken true (group 3)) allPlain_nil
  · split
    · exact .cons (plain_markerToken false (group 4)) allPlain_nil
    · exact .cons (plain_markerToken true (group 1))
        (.cons (group 2) (.cons (plain_markerToken false (group 1)) allPlain_nil))

theorem allPlain_splitMarker {marker : BoldOrItalicMarker} (plain : marker.tokenCharacter ≠ '<')
    (size : Nat) : AllPlain (splitMarker marker size) :=
  .cons plain (.cons plain allPlain_nil)

theorem Finds.plain {id : Nat} {openToken : BoldOrItalicMarker} {tokens : List Token} {found : CloseSearch}
    (finds : Finds id openToken tokens found) (opening : openToken.tokenCharacter ≠ '<')
    (plain : AllPlain tokens) :
    found.openToken.tokenCharacter ≠ '<' ∧ AllPlain (found.split ++ found.rest) := by
  have after : forall {found : CloseSearch} {token : Token}, token.Plain ->
      AllPlain (found.split ++ found.rest) -> AllPlain ((found.after token).split ++ (found.after token).rest) := by
    intro found token here both
    exact .append (fun other member => both other (List.mem_append_left _ member))
      (.cons here fun other member => both other (List.mem_append_right _ member))
  induction finds with
  | ended => exact ⟨opening, plain⟩
  | other noClose later inductionHypothesis =>
      rcases inductionHypothesis plain.tail with ⟨character, rest⟩
      exact ⟨character, after plain.head rest⟩
  | unlike unmatched notTriple notTripleToo unfit later inductionHypothesis =>
      rcases inductionHypothesis plain.tail with ⟨character, rest⟩
      exact ⟨character, after plain.head rest⟩
  | splitClose unmatched triple notTriple later inductionHypothesis =>
      rcases inductionHypothesis (.append (allPlain_splitMarker plain.head _) plain.tail) with
        ⟨character, rest⟩
      exact ⟨character, after plain.head rest⟩
  | fit rest unmatched fits => exact ⟨opening, .cons plain.head plain.tail⟩
  | splitOpen rest unmatched triple unfit =>
      exact ⟨opening, .append (allPlain_splitMarker opening _) plain⟩

theorem Matches.plain {id : Nat} {tokens result : List Token} (loop : Matches id tokens result)
    (plain : AllPlain tokens) : AllPlain result := by
  induction loop with
  | nil id => exact plain
  | other noOpen onward inductionHypothesis => exact .cons plain.head (inductionHypothesis plain.tail)
  | opening unmatched search onward inductionHypothesis =>
      rcases search.plain plain.head plain.tail with ⟨character, rest⟩
      exact .cons character (inductionHypothesis rest)

theorem plain_unmatch (undone : List Nat) {token : Token} (plain : token.Plain) :
    (unmatch undone token).Plain := by
  cases token with
  | boldOrItalicMarker marker =>
      rw [unmatch]
      split
      · exact plain
      · exact plain
  | text kind text => exact plain
  | escapedCharacter c => exact plain
  | container kind subTokens => exact plain
  | image altText url title => exact plain

theorem processMarkers_plain {rounds : Nat} {tokens result : List Token} (plain : AllPlain tokens)
    (done : processMarkers rounds tokens = .ok result) : AllPlain result := by
  rcases Rounds.bind_eq_ok done with ⟨matched, loop, onward⟩
  rcases Rounds.bind_eq_ok onward with ⟨undone, _, same⟩
  cases same
  intro token member
  rcases List.mem_map.mp member with ⟨before, here, rfl⟩
  exact plain_unmatch undone ((Matches.of_matchMarkers loop).plain plain before here)

theorem tame_marker {marker : BoldOrItalicMarker} (plain : marker.tokenCharacter ≠ '<') :
    (Token.boldOrItalicMarker marker).Tame := by
  change Tame marker.writeAsHtml
  have tags : forall size : Nat, Tame (BoldOrItalicMarker.openTag size) ∧
      Tame (BoldOrItalicMarker.closeTag size) := by
    intro size
    unfold BoldOrItalicMarker.openTag BoldOrItalicMarker.closeTag
    split
    · decide
    · split
      · decide
      · decide
  rw [BoldOrItalicMarker.writeAsHtml]
  split
  · exact trivial
  · split
    · split
      · exact (tags marker.size).1
      · exact (tags marker.size).2
    · exact .of_notMem fun member => plain (List.eq_of_mem_replicate member).symm

/-! ## The table -/

theorem tame_rawTokens {text : Text} (absent : '<' ∉ text) :
    forall token, token ∈ rawTokens text -> token.Tame := by
  intro token member
  unfold rawTokens at member
  split at member
  · cases member
  · rw [List.mem_singleton.mp member]
    exact tame_text absent trivial

/-- No character that can be escaped is `<`. -/
theorem tame_lookUp {table : ReplacementTable} (tame : forall token, token ∈ table -> token.Tame)
    {ref : Text} {replaced : Replaced} (found : lookUp table ref = .ok replaced) :
    match replaced with
    | .escaped c => (Token.escapedCharacter c).Tame
    | .item token => token.Tame
    | .nothing => True := by
  rw [lookUp] at found
  split at found
  · rcases Rounds.bind_eq_ok found with ⟨n, _, onward⟩
    rcases Rounds.bind_eq_ok onward with ⟨c, escaped, same⟩
    cases same
    rw [escapedCharacter] at escaped
    split at escaped
    · rename_i known
      cases escaped
      have absent : '<' ∉ cEscapedCharacters := by decide
      refine .of_notMem fun angle => absent ?_
      exact List.mem_singleton.mp angle ▸ List.mem_of_getElem? known
    · split at escaped
      · cases escaped
        exact .of_notMem (by decide)
      · cases escaped
  · split at found
    · rcases Rounds.bind_eq_ok found with ⟨n, _, onward⟩
      split at onward
      · rename_i token known
        cases onward
        exact tame token (List.mem_of_getElem? known)
      · cases onward
    · cases found
      exact trivial

theorem encodeProcessedItems_tame {table : ReplacementTable} (tame : forall token, token ∈ table -> token.Tame)
    {src : Text} (absent : '<' ∉ src) {tokens : List Token}
    (done : encodeProcessedItems table src = .ok tokens) : forall token, token ∈ tokens -> token.Tame := by
  rcases matches_within cReplaced src with ⟨parts, rest⟩
  rcases Rounds.bind_eq_ok done with ⟨front, matched, same⟩
  cases same
  have early : forall token, token ∈ front -> token.Tame := by
    refine Rounds.flatMapM_rule (fun m here part made token member => ?_) matched
    rcases Rounds.bind_eq_ok made with ⟨replaced, found, same⟩
    cases same
    rcases List.mem_append.mp member with before | behind
    · exact tame_rawTokens (fun inside => absent ((parts m here).1.subset inside)) token before
    · have known := tame_lookUp tame found
      cases replaced with
      | escaped c => exact List.mem_singleton.mp behind ▸ known
      | item other => exact List.mem_singleton.mp behind ▸ known
      | nothing => cases behind
  intro token member
  rcases List.mem_append.mp member with inside | last
  · exact early token inside
  · exact tame_rawTokens (fun inside => absent (rest.subset inside)) token last

theorem processBoldAndItalicSpans_tame {rounds : Nat} {src : Text} {table : ReplacementTable}
    {tokens : List Token} (absent : '<' ∉ src) (tame : forall token, token ∈ table -> token.Tame)
    (done : processBoldAndItalicSpans rounds src table = .ok tokens) :
    forall token, token ∈ tokens -> token.Tame := by
  rcases Rounds.bind_eq_ok done with ⟨markers, processed, spread⟩
  have plain := processMarkers_plain (allPlain_readMarkers absent) processed
  refine Rounds.flatMapM_rule (fun marker here part made token member => ?_) spread
  have harmless := plain marker here
  cases marker with
  | text kind content =>
      cases kind with
      | rawText canContainMarkup =>
          cases canContainMarkup with
          | true => exact encodeProcessedItems_tame tame harmless made token member
          | false => cases harmless
      | _ => cases harmless
  | boldOrItalicMarker marker =>
      cases made
      rw [List.mem_singleton.mp member]
      exact tame_marker harmless
  | escapedCharacter c => cases harmless
  | container kind subTokens => cases harmless
  | image altText url title => cases harmless

theorem foreign_angle : Foreign '<' := ⟨by decide, by decide⟩

theorem processSpans_tame {rounds : Nat} {idTable : LinkIds} (known : idTable.Lacks '<') {text : Text}
    (absent : '<' ∉ text) {tokens : List Token} (done : processSpans rounds idTable text = .ok tokens) :
    forall token, token ∈ tokens -> token.Tame := by
  rcases Rounds.bind_eq_ok done with ⟨⟨tagged, tags⟩, attributes, onward⟩
  rcases Rounds.bind_eq_ok onward with ⟨⟨coded, codes⟩, codeSpans, onward⟩
  rcases Rounds.bind_eq_ok onward with ⟨⟨tgt, table⟩, links, onward⟩
  rcases spanPasses_absent foreign_angle known absent attributes codeSpans links with ⟨free, tame⟩
  exact processBoldAndItalicSpans_tame free (tame rfl) onward

/-! ## Documents -/

theorem joinTokens_tame {tokens : List Token} (tame : forall token, token ∈ tokens -> token.Tame) :
    forall token, token ∈ joinTokens tokens -> token.Tame := by
  match tokens with
  | [] => exact tame
  | [token] => exact tame
  | first :: second :: rest =>
      intro token member
      rw [List.mem_singleton.mp member]
      exact tame_container _ tame

mutual

theorem processSpanElements_tame {rounds : Nat} {idTable : LinkIds} (known : idTable.Lacks '<') :
    (token : Token) -> token.Lacks '<' -> {tokens : List Token} ->
      processSpanElements rounds idTable token = .ok tokens -> forall made, made ∈ tokens -> made.Tame
  | .container kind subTokens, lacks, tokens, done => by
      rcases Rounds.bind_eq_ok done with ⟨inner, inside, same⟩
      cases same
      cases lacks with
      | container kind each =>
          intro made member
          rw [List.mem_singleton.mp member]
          exact tame_container _ (processEachSpanElements_tame known subTokens each inside)
  | .text kind text, lacks, tokens, done => by
      cases lacks with
      | text absent own =>
          have kept : tokens = [.text kind text] -> forall made, made ∈ tokens -> made.Tame := by
            intro same made member
            rw [same] at member
            rw [List.mem_singleton.mp member]
            exact tame_text absent (own rfl)
          cases kind with
          | rawText canContainMarkup =>
              cases canContainMarkup with
              | true =>
                  rcases Rounds.bind_eq_ok done with ⟨inner, spans, same⟩
                  cases same
                  exact joinTokens_tame (processSpans_tame known absent spans)
              | false => exact kept (Except.ok.inj done).symm
          | _ => exact kept (Except.ok.inj done).symm
  | .escapedCharacter symbol, lacks, tokens, done => by cases lacks
  | .boldOrItalicMarker marker, lacks, tokens, done => by cases lacks
  | .image altText url title, lacks, tokens, done => by cases lacks

theorem processEachSpanElements_tame {rounds : Nat} {idTable : LinkIds} (known : idTable.Lacks '<') :
    (tokens : List Token) -> AllLack '<' tokens -> {result : List Token} ->
      processEachSpanElements rounds idTable tokens = .ok result ->
        forall made, made ∈ result -> made.Tame
  | [], lacks, result, done => by
      cases done
      exact fun _ member => absurd member List.not_mem_nil
  | token :: rest, lacks, result, done => by
      rcases Rounds.bind_eq_ok done with ⟨first, here, onward⟩
      rcases Rounds.bind_eq_ok onward with ⟨later, after, same⟩
      cases same
      intro made member
      rcases List.mem_append.mp member with early | late
      · exact processSpanElements_tame known token lacks.head here made early
      · exact processEachSpanElements_tame known rest lacks.tail after made late

end

/-- A document without `<` is converted to a page in which every `<` begins one of the
converter's own tags. -/
theorem convert_tame (rounds : Nat) (src html : Text) (absent : '<' ∉ src)
    (converted : convert rounds src = .ok html) (before after : Text) (here : html = before ++ '<' :: after) :
    Exists fun tag : Text => tag ∈ tagStarts ∧ tag <+: '<' :: after := by
  have foreign : '<' ∉ added := by decide
  rcases Rounds.bind_eq_ok converted with ⟨tokens, processed, same⟩
  cases same
  rcases Rounds.bind_eq_ok processed with ⟨blocks, blocked, spans⟩
  rcases passes_lack foreign absent blocked with ⟨lacks, known⟩
  exact (tame_writeAll (processEachSpanElements_tame known _ lacks spans)).starts here

/-- The tag of a link in a line with emphasis, a link and code. -/
theorem convert_tame_line :
    Exists fun tag : Text => tag ∈ tagStarts ∧
      tag <+: '<' :: "a href=\"/c\">b</a> <code>x &gt; y</code></p>\n\n".toList := by
  have converted : convert 9 "*Salt* & [b](/c) `x > y`\n".toList =
      .ok "<p><em>Salt</em> &amp; <a href=\"/c\">b</a> <code>x &gt; y</code></p>\n\n".toList := by
    decide +kernel
  exact convert_tame 9 _ _ (by decide) converted "<p><em>Salt</em> &amp; ".toList _ rfl

end Markdown
end Webserver
