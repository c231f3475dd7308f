import Webserver.Markdown.BlockEnding
import Webserver.Markdown.EmphasisEnding
import Webserver.Markdown.OwnTags

namespace Webserver
namespace Markdown

open Regex Relation Rounds

/-!
# The conversion ends

The passes over a text end by themselves, apart from the one that matches the emphasis
markers.  That one ends where all markers of three are of one character, as they are in a
document that does without asterisks or without underscores.
-/

/-! ## Passes without a limit -/

theorem lookUp_finished (replacements : ReplacementTable) (ref : Text) :
    lookUp replacements ref ≠ .error .unfinished := by
  have cast : forall text : Text, lexicalCast text ≠ .error .unfinished := by
    intro text
    rw [lexicalCast]
    split
    · exact ok_finished _
    · exact error_finished (by decide)
  have escaped : forall n : Nat, escapedCharacter n ≠ .error .unfinished := by
    intro n
    rw [escapedCharacter]
    split
    · exact ok_finished _
    · split
      · exact ok_finished _
      · exact error_finished (by decide)
  rw [lookUp]
  split
  · exact bind_finished (cast _) fun n => bind_finished (escaped n) fun c => ok_finished _
  · split
    · apply bind_finished (cast ref)
      intro n
      split
      · exact ok_finished _
      · exact error_finished (by decide)
    · exact ok_finished _

theorem substitute_finished (regex : Regex) {replace : Regex.Match -> ReplacementTable ->
      Except Fault (Text × ReplacementTable)}
    (each : forall m table, replace m table ≠ .error .unfinished) (src : Text) (table : ReplacementTable) :
    substitute regex replace src table ≠ .error .unfinished := by
  apply bind_finished
  · apply foldlM_finished
    rintro ⟨tgt, table⟩ m
    exact bind_finished (each m table) fun made => ok_finished _
  · exact fun state => ok_finished _

theorem restoreProcessedItems_finished (src : Text) (table : ReplacementTable) :
    restoreProcessedItems src table ≠ .error .unfinished := by
  apply bind_finished
  · apply substitute_finished
    intro m table
    apply bind_finished (lookUp_finished table (m.group 1))
    intro replaced
    cases replaced with
    | escaped c => exact ok_finished _
    | item token => exact ok_finished _
    | nothing => exact ok_finished _
  · exact fun state => ok_finished _

theorem processHtmlTagAttributes_finished (src : Text) (table : ReplacementTable) :
    processHtmlTagAttributes src table ≠ .error .unfinished := by
  apply substitute_finished
  intro m table
  split
  · exact substitute_finished _ (fun _ _ => ok_finished _) _ _
  · exact ok_finished _

theorem processCodeSpans_finished (src : Text) (table : ReplacementTable) :
    processCodeSpans src table ≠ .error .unfinished := by
  apply foldlM_finished
  intro state expression
  apply substitute_finished
  intro m table
  exact bind_finished (restoreProcessedItems_finished _ _) fun contents => ok_finished _

theorem linkLoop_finished (idTable : LinkIds) (rounds : Nat) (src : Text) (table : ReplacementTable) :
    linkLoop idTable rounds src table ≠ .error .unfinished := by
  have tags : forall (m : Regex.Match) (table : ReplacementTable), tagToken m table ≠ .error .unfinished := by
    intro m table
    rw [tagToken]
    split
    · exact ok_finished _
    · split
      · exact ok_finished _
      · split
        · exact bind_finished (restoreProcessedItems_finished _ _) fun contents => ok_finished _
        · exact ok_finished _
  have steps : forall (m : Regex.Match) (table : ReplacementTable),
      linkStep idTable m table ≠ .error .unfinished := by
    intro m table
    unfold linkStep
    dsimp only
    split
    · split
      · exact ok_finished _
      · split
        · exact ok_finished _
        · exact ok_finished _
    · exact bind_finished (tags m table) fun token => ok_finished _
  induction rounds generalizing src table with
  | zero => exact ok_finished _
  | succ rounds inductionHypothesis =>
      rw [linkLoop]
      split
      · exact ok_finished _
      · exact bind_finished (steps _ _) fun step =>
          bind_finished (inductionHypothesis _ _) fun later => ok_finished _

theorem encodeProcessedItems_finished (table : ReplacementTable) (src : Text) :
    encodeProcessedItems table src ≠ .error .unfinished := by
  apply bind_finished
  · exact flatMapM_finished _ fun m _ => bind_finished (lookUp_finished _ _) fun replaced => ok_finished _
  · exact fun tokens => ok_finished _

/-! ## Emphasis -/

theorem findClose_steady {id rounds : Nat} {openToken : BoldOrItalicMarker} {tokens : List Token}
    {found : CloseSearch} (ended : findClose id openToken rounds tokens = .ok found) :
    findClose id openToken (rounds + 1) tokens = .ok found := by
  induction rounds generalizing tokens found with
  | zero => cases ended
  | succ rounds inductionHypothesis =>
      have onward : forall {tokens : List Token} {rest : CloseSearch -> CloseSearch} {found : CloseSearch},
          (findClose id openToken rounds tokens >>= fun found => .ok (rest found)) = .ok found ->
            (findClose id openToken (rounds + 1) tokens >>= fun found => .ok (rest found)) = .ok found := by
        intro tokens rest found ended
        rcases bind_eq_ok ended with ⟨first, searched, same⟩
        rw [inductionHypothesis searched]
        exact same
      cases tokens with
      | nil => exact ended
      | cons token rest =>
          cases token with
          | boldOrItalicMarker closeToken =>
              rw [findClose] at ended ⊢
              split at ended
              · rename_i closes
                rw [if_pos closes]
                split at ended
                · rename_i splits
                  rw [if_pos splits]
                  exact onward ended
                · rename_i whole
                  rw [if_neg whole]
                  split at ended
                  · rename_i fits
                    rw [if_pos fits]
                    exact ended
                  · rename_i unfit
                    rw [if_neg unfit]
                    split at ended
                    · rename_i triple
                      rw [if_pos triple]
                      exact ended
                    · rename_i single
                      rw [if_neg single]
                      exact onward ended
              · rename_i opens
                rw [if_neg opens]
                exact onward ended
          | text kind text => exact onward ended
          | escapedCharacter c => exact onward ended
          | container kind subTokens => exact onward ended
          | image altText url title => exact onward ended

theorem matchMarkers_steady {id rounds : Nat} {tokens result : List Token}
    (ended : matchMarkers rounds id tokens = .ok result) :
    matchMarkers (rounds + 1) id tokens = .ok result := by
  induction rounds generalizing id tokens result with
  | zero => cases ended
  | succ rounds inductionHypothesis =>
      have onward : forall {id : Nat} {tokens result : List Token} {token : Token},
          (matchMarkers rounds id tokens >>= fun later => .ok (token :: later)) = .ok result ->
            (matchMarkers (rounds + 1) id tokens >>= fun later => .ok (token :: later)) = .ok result := by
        intro id tokens result token ended
        rcases bind_eq_ok ended with ⟨later, matched, same⟩
        rw [inductionHypothesis matched]
        exact same
      cases tokens with
      | nil => exact ended
      | cons token rest =>
          cases token with
          | boldOrItalicMarker openToken =>
              rw [matchMarkers] at ended ⊢
              split at ended
              · rename_i opens
                rw [if_pos opens]
                rcases bind_eq_ok ended with ⟨found, searched, later⟩
                rw [findClose_steady searched]
                exact onward later
              · rename_i other
                rw [if_neg other]
                exact onward ended
          | text kind text => exact onward ended
          | escapedCharacter c => exact onward ended
          | container kind subTokens => exact onward ended
          | image altText url title => exact onward ended

theorem processMarkers_steady {rounds : Nat} {tokens result : List Token}
    (ended : processMarkers rounds tokens = .ok result) : processMarkers (rounds + 1) tokens = .ok result := by
  rcases bind_eq_ok ended with ⟨paired, matched, later⟩
  rw [processMarkers, matchMarkers_steady matched]
  exact later

/-- The characters that emphasis is marked with. -/
def Marks (c : Char) : Prop := c = '*' ∨ c = '_'

variable {c : Char}

/-- Without one of the two characters, all runs of three are of the other. -/
theorem tripled_other (marks : Marks c) {src : Text} (absent : c ∉ src) :
    Exists fun other : Char => forall d, Tripled d src -> d = other := by
  have kind : forall d, Tripled d src -> d ≠ c ∧ Marks d := by
    rintro d ⟨run, inside, _, first, characters⟩
    have member := List.mem_of_head? first
    exact ⟨fun same => absent (same ▸ inside.subset member), characters d member⟩
  rcases marks with rfl | rfl
  · exact ⟨'_', fun d tripled => (kind d tripled).2.resolve_left (kind d tripled).1⟩
  · exact ⟨'*', fun d tripled => (kind d tripled).2.resolve_right (kind d tripled).1⟩

theorem processBoldAndItalicSpans_ends (marks : Marks c) {src : Text} (absent : c ∉ src)
    (table : ReplacementTable) :
    Ends Fault.unfinished (fun rounds => processBoldAndItalicSpans rounds src table) := by
  rcases tripled_other marks absent with ⟨other, kinds⟩
  have sized := sized_readMarkers kinds
  rcases processMarkers_ends (Nat.lt_succ_self src.length)
    (fun state steps => not_clashes_of_sized (MarkerStep.sized_steps steps sized)) with ⟨markers, matched⟩
  have markersEnd : Ends Fault.unfinished (fun rounds => processMarkers rounds (readMarkers src)) :=
    .of_steady processMarkers_steady matched
  apply Ends.bind markersEnd
  intro tokens _
  apply Ends.const
  apply flatMapM_finished
  intro token _
  split
  · split
    · exact encodeProcessedItems_finished _ _
    · exact ok_finished _
  · exact ok_finished _

/-! ## The conversion -/

theorem processSpans_ends (marks : Marks c) {idTable : LinkIds} (known : idTable.Lacks c) {text : Text}
    (absent : c ∉ text) : Ends Fault.unfinished (fun rounds => processSpans rounds idTable text) := by
  have foreign : Foreign c := by
    rcases marks with rfl | rfl
    · exact ⟨by decide, by decide⟩
    · exact ⟨by decide, by decide⟩
  apply Ends.bind (.const (processHtmlTagAttributes_finished text []))
  rintro ⟨tagged, tags⟩ ⟨_, attributes⟩
  apply Ends.bind (.const (processCodeSpans_finished tagged tags))
  rintro ⟨coded, codes⟩ ⟨_, codeSpans⟩
  apply Ends.bind (.const (linkLoop_finished idTable _ (processEscapedCharacters coded) codes))
  rintro ⟨linked, table⟩ ⟨_, links⟩
  exact processBoldAndItalicSpans_ends marks (spanPasses_absent foreign known absent attributes codeSpans links).1
    table

mutual

theorem processSpanElements_ends (marks : Marks c) {idTable : LinkIds} (known : idTable.Lacks c) :
    (token : Token) -> token.Lacks c ->
      Ends Fault.unfinished (fun rounds => processSpanElements rounds idTable token)
  | .container kind subTokens, lacks => by
      cases lacks with
      | container kind each =>
          exact (processEachSpanElements_ends marks known subTokens each).bind fun _ _ => .ok _
  | .text kind text, lacks => by
      cases lacks with
      | text absent own =>
          cases kind with
          | rawText canContainMarkup =>
              cases canContainMarkup with
              | true => exact (processSpans_ends marks known absent).bind fun _ _ => .ok _
              | false => exact .ok _
          | _ => exact .ok _
  | .escapedCharacter symbol, _ => .ok _
  | .boldOrItalicMarker marker, _ => .ok _
  | .image altText url title, _ => .ok _

theorem processEachSpanElements_ends (marks : Marks c) {idTable : LinkIds} (known : idTable.Lacks c) :
    (tokens : List Token) -> AllLack c tokens ->
      Ends Fault.unfinished (fun rounds => processEachSpanElements rounds idTable tokens)
  | [], _ => .ok []
  | token :: rest, lacks =>
      (processSpanElements_ends marks known token lacks.head).bind fun _ _ =>
        (processEachSpanElements_ends marks known rest lacks.tail).bind fun _ _ => .ok _

end

/-- The conversion of every document without asterisks, or without underscores, ends: from
some number of rounds on, no limit is met and the result is the same. -/
theorem convert_ends {src : Text} (oneKind : '*' ∉ src ∨ '_' ∉ src) :
    Exists fun result : Except Fault Text => result ≠ .error .unfinished ∧
      Exists fun bound : Nat => forall rounds, bound ≤ rounds -> convert rounds src = result := by
  have each : forall c : Char, Marks c -> c ∉ src ->
      Ends Fault.unfinished (fun rounds => convert rounds src) := by
    intro c marks absent
    have foreign : c ∉ added := by
      rcases marks with rfl | rfl
      · decide
      · decide
    have passes : Ends Fault.unfinished (fun rounds => process rounds (read src)) := by
      apply Ends.bind (processBlocksItems_ends _)
      rintro blocks ⟨rounds, blocked⟩
      rcases passes_lack foreign absent blocked with ⟨lacks, known⟩
      exact processEachSpanElements_ends marks known _ lacks
    exact passes.bind fun _ _ => .ok _
  rcases oneKind with noAsterisk | noUnderscore
  · exact each '*' (Or.inl rfl) noAsterisk
  · exact each '_' (Or.inr rfl) noUnderscore

/-- A list with an item of two paragraphs, and a quote. -/
theorem convert_ends_list :
    Exists fun result : Except Fault Text => result ≠ .error .unfinished ∧
      Exists fun bound : Nat => forall rounds, bound ≤ rounds ->
        convert rounds "* **a** [b](c)\n\n    d\n* e\n\n> * f\n".toList = result :=
  convert_ends (Or.inr (by decide))

end Markdown
end Webserver
