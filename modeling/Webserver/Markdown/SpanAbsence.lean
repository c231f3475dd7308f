import Webserver.Library.Rounds
import Webserver.Markdown.Spans
import Webserver.Markdown.TameTokens

namespace Webserver
namespace Markdown

open Regex

/-!
# Characters that a text does not have while its spans are processed

The passes over a text put placeholders into it and tokens into the table.  A character
that the text does not have is not in the text with the placeholders either, as long as
it is in none of them.  If the character is `<`, then no token of the table brings HTML
of its own.
-/

/-- The characters of the placeholders, apart from their numbers. -/
def placeholderCharacters : Text := "\x01@#htmlTagAttrcodeSpanescapedlinks&Images12".toList

/-- No placeholder has the character. -/
def Foreign (c : Char) : Prop := c ∉ placeholderCharacters ∧ c.isDigit = false

variable {c : Char}

theorem Foreign.notMem {c : Char} (foreign : Foreign c) {text : Text}
    (inside : text ⊆ placeholderCharacters) : c ∉ text :=
  fun member => foreign.1 (inside member)

theorem Foreign.notMem_toDigits {c : Char} (foreign : Foreign c) (n : Nat) : c ∉ Nat.toDigits 10 n :=
  fun member => absurd (foreign.2.symm.trans (CInt.isDigit_of_mem_toDigits member)) Bool.false_ne_true

theorem notMem_placeholder (foreign : Foreign c) {number name : Text} (absent : c ∉ number)
    (known : name ⊆ placeholderCharacters) : c ∉ placeholder number name := by
  have opening : c ∉ "\x01@".toList := foreign.notMem (by decide)
  have at_ : c ≠ '@' := fun same => foreign.1 (same ▸ by decide)
  have closing : c ≠ '\x01' := fun same => foreign.1 (same ▸ by decide)
  simp only [placeholder, List.mem_append, List.mem_cons, List.not_mem_nil, or_false, not_or]
  exact ⟨⟨⟨opening, absent⟩, at_, foreign.notMem known⟩, closing⟩

theorem notMem_nextPlaceholder (foreign : Foreign c) (table : ReplacementTable) {name : Text}
    (known : name ⊆ placeholderCharacters) : c ∉ nextPlaceholder table name :=
  notMem_placeholder foreign (foreign.notMem_toDigits _) known

/-- Without `<`, the tokens of the table write no tags but the converter's own. -/
def TableTame (c : Char) (table : ReplacementTable) : Prop :=
  c = '<' -> forall token, token ∈ table -> token.Tame

theorem TableTame.append {table more : ReplacementTable} (tame : TableTame c table)
    (others : c = '<' -> forall token, token ∈ more -> token.Tame) : TableTame c (table ++ more) :=
  fun same token member => (List.mem_append.mp member).elim (tame same token) (others same token)

theorem TableTame.concat {table : ReplacementTable} (tame : TableTame c table) {token : Token}
    (other : c = '<' -> token.Tame) : TableTame c (table ++ [token]) :=
  tame.append fun same _ member => List.mem_singleton.mp member ▸ other same

/-- The rule for a substitution. -/
theorem substitute_rule {regex : Regex} {replace : Regex.Match -> ReplacementTable ->
      Except Fault (Text × ReplacementTable)} {src tgt : Text} {table after : ReplacementTable}
    (absent : c ∉ src) (tame : TableTame c table)
    (each : forall {m table text more}, c ∉ m.whole -> (forall number, c ∉ m.group number) ->
      TableTame c table -> replace m table = .ok (text, more) -> c ∉ text ∧ TableTame c more)
    (done : substitute regex replace src table = .ok (tgt, after)) : c ∉ tgt ∧ TableTame c after := by
  have folds : forall (found : List Regex.Match) {front tgt : Text} {table after : ReplacementTable},
      (forall m, m ∈ found -> c ∉ m.before ∧ c ∉ m.whole ∧ forall number, c ∉ m.group number) ->
      c ∉ front -> TableTame c table ->
      found.foldlM (fun (state : Text × ReplacementTable) m => do
        let made <- replace m state.2
        .ok (state.1 ++ m.before ++ made.1, made.2)) (front, table) = .ok (tgt, after) ->
      c ∉ tgt ∧ TableTame c after := by
    intro found
    induction found with
    | nil =>
        intro front tgt table after _ absent tame same
        cases same
        exact ⟨absent, tame⟩
    | cons m rest inductionHypothesis =>
        intro front tgt table after parts absent tame folded
        rcases parts m List.mem_cons_self with ⟨before, whole, groups⟩
        rcases Rounds.bind_eq_ok folded with ⟨state, replaced, onward⟩
        rcases Rounds.bind_eq_ok replaced with ⟨⟨text, more⟩, here, same⟩
        cases same
        rcases each whole groups tame here with ⟨free, tameToo⟩
        refine inductionHypothesis (fun other member => parts other (List.mem_cons_of_mem m member)) ?_
          tameToo onward
        simp only [List.mem_append, not_or]
        exact ⟨⟨absent, before⟩, free⟩
  rcases matches_within regex src with ⟨parts, rest⟩
  rcases Rounds.bind_eq_ok done with ⟨⟨front, more⟩, folded, same⟩
  cases same
  have pieces : forall m, m ∈ (regex.matches_ src).1 ->
      c ∉ m.before ∧ c ∉ m.whole ∧ forall number, c ∉ m.group number := by
    intro m member
    rcases parts m member with ⟨before, whole, groups⟩
    exact ⟨fun inside => absent (before.subset inside), fun inside => absent (whole.subset inside),
      fun number inside => absent ((groups number).subset inside)⟩
  rcases folds _ pieces List.not_mem_nil tame folded with ⟨free, tameToo⟩
  refine ⟨fun member => ?_, tameToo⟩
  rcases List.mem_append.mp member with early | late
  · exact free early
  · exact absent (rest.subset late)

/-! ## The passes -/

theorem processHtmlTagAttributes_absent (foreign : Foreign c) {src tgt : Text}
    {table after : ReplacementTable} (absent : c ∉ src) (tame : TableTame c table)
    (done : processHtmlTagAttributes src table = .ok (tgt, after)) : c ∉ tgt ∧ TableTame c after := by
  refine substitute_rule absent tame ?_ done
  intro m table text more whole groups tame replaced
  split at replaced
  · refine substitute_rule whole tame ?_ replaced
    intro attribute_ table text more wholeToo groupsToo tame replaced
    cases replaced
    refine ⟨notMem_nextPlaceholder foreign _ (by decide), tame.concat fun same => ?_⟩
    exact tame_text (same ▸ wholeToo) trivial
  · cases replaced
    exact ⟨whole, tame⟩

theorem processCodeSpans_absent (foreign : Foreign c) {src tgt : Text} {table after : ReplacementTable}
    (absent : c ∉ src) (tame : TableTame c table)
    (done : processCodeSpans src table = .ok (tgt, after)) : c ∉ tgt ∧ TableTame c after := by
  have pass : forall (expression : Regex) {src tgt : Text} {table after : ReplacementTable}, c ∉ src ->
      TableTame c table -> substitute expression (fun m replacements => do
        let contents <- restoreProcessedItems (m.group 1) replacements
        .ok (nextPlaceholder replacements "codeSpan".toList,
          replacements ++ [.text .codeSpan contents])) src table = .ok (tgt, after) ->
      c ∉ tgt ∧ TableTame c after := by
    intro expression src tgt table after absent tame done
    refine substitute_rule absent tame ?_ done
    intro m table text more whole groups tame replaced
    rcases Rounds.bind_eq_ok replaced with ⟨contents, _, same⟩
    cases same
    refine ⟨notMem_nextPlaceholder foreign _ (by decide), tame.concat fun _ => ?_⟩
    exact tame_codeSpan contents
  rcases Rounds.bind_eq_ok done with ⟨⟨src, table⟩, first, onward⟩
  rcases pass _ absent tame first with ⟨free, tameToo⟩
  rcases Rounds.bind_eq_ok onward with ⟨⟨src, table⟩, second, same⟩
  cases same
  exact pass _ free tameToo second

theorem processEscapedCharacters_absent (foreign : Foreign c) {src : Text} (absent : c ∉ src) :
    c ∉ processEscapedCharacters src := by
  induction src using processEscapedCharacters.induct with
  | case1 => exact absent
  | case2 => exact absent
  | case3 next later inductionHypothesis =>
      simp only [List.mem_cons, not_or] at absent
      rcases absent with ⟨notBackslash, notNext, onward⟩
      rw [processEscapedCharacters, if_pos rfl, List.mem_append, not_or]
      refine ⟨?_, inductionHypothesis onward⟩
      split
      · have hash : c ≠ '#' := fun same => foreign.1 (same ▸ by decide)
        refine notMem_placeholder foreign ?_ (by decide)
        rw [List.mem_cons, not_or]
        exact ⟨hash, foreign.notMem_toDigits _⟩
      · simp only [List.mem_cons, List.not_mem_nil, or_false, not_or]
        exact ⟨notBackslash, notNext⟩
  | case4 first rest other inductionHypothesis =>
      rcases not_or.mp (fun member => absent (List.mem_cons.mpr member)) with ⟨here, onward⟩
      rw [processEscapedCharacters.eq_def]
      dsimp only
      rw [if_neg other, List.mem_cons, not_or]
      exact ⟨here, inductionHypothesis onward⟩

/-! ## Links, images and tags -/

/-- A match that is neither a link nor an image is a tag, which starts with `<`. -/
theorem mem_of_tag {src : Text} {m : Regex.Match} (found : cLinkExpression.search src = some m)
    (noLink : m.matched 2 = false) (noReference : m.matched 5 = false) : '<' ∈ m.whole := by
  rcases search_eq_some found with ⟨_, final, passes, reads, groups⟩
  rw [Regex.Match.matched, groups] at noLink noReference
  cases passes with
  | altFirst _ link => exact absurd (noLink.symm.trans (link.set_of_sets rfl)) Bool.false_ne_true
  | altSecond _ other =>
      cases other with
      | altFirst _ link => exact absurd (noReference.symm.trans (link.set_of_sets rfl)) Bool.false_ne_true
      | altSecond _ tag =>
          have needed : potentialTag.needs (· == '<') = true := by decide
          rcases tag.of_needs needed with ⟨front, symbol, back, opens, whole⟩
          have same := List.append_cancel_right (reads.1.symm.trans whole)
          rw [same, beq_iff_eq.mp opens]
          exact List.mem_append_right _ List.mem_cons_self

theorem resolveTarget_absent {idTable : LinkIds} (known : idTable.Lacks c) {isReference : Bool}
    {m : Regex.Match} (groups : forall number, c ∉ m.group number) {target : Target}
    (resolved : resolveTarget idTable isReference m = some target) : c ∉ target.url ∧ c ∉ target.title := by
  rw [resolveTarget] at resolved
  split at resolved
  · exact known.find resolved
  · rcases Option.map_eq_some_iff.mp resolved with ⟨parts, matched, rfl⟩
    have part : forall number, c ∉ parts.group number := fun number inside =>
      groups 3 ((fullMatch_within matched number).subset inside)
    refine ⟨part 1, ?_⟩
    dsimp only
    split
    · exact part 3
    · exact part 4

/-- What a step leaves of a character that the text does not have: nothing in the text,
nothing in what is searched next, and no foreign HTML in the table. -/
structure StepAbsent (c : Char) (step : LinkStep) : Prop where
  text : c ∉ step.text
  rest : c ∉ step.rest
  tame : c = '<' -> forall token, token ∈ step.replacements -> token.Tame

theorem linkStep_absent (foreign : Foreign c) {idTable : LinkIds} (known : idTable.Lacks c) {src : Text}
    {m : Regex.Match} {table : ReplacementTable} {step : LinkStep}
    (found : cLinkExpression.search src = some m) (absent : c ∉ src)
    (done : linkStep idTable m table = .ok step) : StepAbsent c step := by
  rcases search_within found with ⟨_, wholeInside, afterInside, groupsInside⟩
  have whole : c ∉ m.whole := fun member => absent (wholeInside.subset member)
  have after : c ∉ m.after := fun member => absent (afterInside.subset member)
  have groups : forall number, c ∉ m.group number :=
    fun number member => absent ((groupsInside number).subset member)
  have first : c ∉ nextPlaceholder table "links&Images1".toList :=
    notMem_nextPlaceholder foreign table (by decide)
  have contents : forall isReference : Bool, c ∉ (if isReference then m.group 5 else m.group 2) := by
    intro isReference
    split
    · exact groups 5
    · exact groups 2
  unfold linkStep at done
  dsimp only at done
  split at done
  · split at done
    · cases done
      refine ⟨first, ?_, fun same token member => ?_⟩
      · rw [List.mem_append, not_or]
        exact ⟨fun member => whole (List.mem_of_mem_drop member), after⟩
      · rw [List.mem_singleton.mp member]
        exact tame_text (fun inside => whole (same ▸ List.mem_of_mem_take inside)) trivial
    · rename_i target resolved
      rcases resolveTarget_absent known groups resolved with ⟨url, title⟩
      split at done
      · cases done
        refine ⟨first, after, fun same token member => ?_⟩
        rw [List.mem_singleton.mp member]
        exact tame_image (same ▸ contents _) (same ▸ url) (same ▸ title)
      · cases done
        refine ⟨?_, after, fun same token member => ?_⟩
        · simp only [List.mem_append, not_or]
          exact ⟨⟨first, contents _⟩, notMem_nextPlaceholder foreign _ (by decide)⟩
        · simp only [List.mem_cons, List.not_mem_nil, or_false] at member
          rcases member with rfl | rfl
          · exact tame_htmlAnchorTag (same ▸ url) (same ▸ title)
          · exact tame_text (by decide) (show _ ∈ ownTags by decide)
  · rename_i neither
    rcases Rounds.bind_eq_ok done with ⟨token, _, same⟩
    cases same
    refine ⟨first, after, fun same => ?_⟩
    have unlinked : forall image reference link : Bool,
        ¬ (image || (!image && (reference || link))) = true -> link = false ∧ reference = false := by decide
    rcases unlinked _ _ _ neither with ⟨noLink, noReference⟩
    exact absurd (mem_of_tag found noLink noReference) (same ▸ whole)

theorem linkLoop_absent (foreign : Foreign c) {idTable : LinkIds} (known : idTable.Lacks c) {rounds : Nat}
    {src tgt : Text} {table after : ReplacementTable} (absent : c ∉ src) (tame : TableTame c table)
    (done : linkLoop idTable rounds src table = .ok (tgt, after)) : c ∉ tgt ∧ TableTame c after := by
  induction rounds generalizing src tgt table with
  | zero =>
      cases done
      exact ⟨absent, tame⟩
  | succ rounds inductionHypothesis =>
      rw [linkLoop] at done
      split at done
      · cases done
        exact ⟨absent, tame⟩
      · rename_i m found
        rcases Rounds.bind_eq_ok done with ⟨step, stepped, onward⟩
        rcases Rounds.bind_eq_ok onward with ⟨⟨later, table⟩, looped, same⟩
        cases same
        have stepAbsent := linkStep_absent foreign known found absent stepped
        rcases inductionHypothesis stepAbsent.rest (tame.append stepAbsent.tame) looped with ⟨free, tameToo⟩
        refine ⟨?_, tameToo⟩
        simp only [List.mem_append, not_or]
        exact ⟨⟨fun member => absent ((search_within found).1.subset member), stepAbsent.text⟩, free⟩

/-- What the passes before the emphasis make of a text that does not have the character. -/
theorem spanPasses_absent (foreign : Foreign c) {idTable : LinkIds} (known : idTable.Lacks c) {text : Text}
    (absent : c ∉ text) {tagged coded tgt : Text} {tags codes table : ReplacementTable}
    (attributes : processHtmlTagAttributes text [] = .ok (tagged, tags))
    (codeSpans : processCodeSpans tagged tags = .ok (coded, codes))
    (links : processLinksImagesAndTags idTable (processEscapedCharacters coded) codes = .ok (tgt, table)) :
    c ∉ tgt ∧ TableTame c table := by
  have empty : TableTame c [] := fun _ _ member => absurd member List.not_mem_nil
  rcases processHtmlTagAttributes_absent foreign absent empty attributes with ⟨free, tame⟩
  rcases processCodeSpans_absent foreign free tame codeSpans with ⟨freeToo, tameToo⟩
  exact linkLoop_absent foreign known (processEscapedCharacters_absent foreign freeToo) tameToo links

end Markdown
end Webserver
