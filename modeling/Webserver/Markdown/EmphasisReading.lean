import Webserver.Library.RegexShapes
import Webserver.Markdown.EmphasisNesting

namespace Webserver
namespace Markdown

open Brackets Regex

/-!
# The markers of a text

The expression for emphasis has three alternatives, and the groups of a match tell which
one it was.  A match is a run of one to three characters that opens or closes, or it is
a run, a word and the same run again.
-/

theorem accepts_oneOf (singles : List Char) (c : Char) :
    (CharSet.oneOf singles).accepts c = true ↔ c ∈ singles := by
  simp [CharSet.accepts, CharSet.oneOf]

theorem eq_replicate_of_word {c : Char} {text : List Char}
    (every : forall d, d ∈ text -> (CharSet.oneOf [c]).accepts d = true) :
    text = List.replicate text.length c := by
  apply List.eq_replicate_of_mem
  intro d member
  exact List.mem_singleton.mp ((accepts_oneOf [c] d).mp (every d member))

/-- A run is one to three times its character. -/
theorem passes_markerRun {notBefore : List Char} {c : Char} {cursor final : Cursor}
    (passes : Passes (markerRun notBefore c) cursor final) :
    Exists fun count : Nat => 1 ≤ count ∧ count ≤ 3 ∧
      cursor.Reads (List.replicate count c) final ∧ final.groups = cursor.groups := by
  cases passes with | seq front notAhead
  cases front with | seq front more
  cases front with | seq notBehind first
  cases notBehind
  cases notAhead
  rcases first.of_one with ⟨d, here⟩
  rcases more.of_upTo with ⟨text, short, later⟩
  have run := here.trans later
  refine ⟨text.length + 1, Nat.le_add_left _ _, by omega, ?_, run.2.2⟩
  have same := eq_replicate_of_word run.2.1
  rw [List.singleton_append, List.length_cons] at same
  rw [← same]
  exact run.1

/-- What the three alternatives match. -/
inductive EmphasisMatch (m : Regex.Match) : Prop
  | word (run contents : Text) (groups : m.groups = [(2, contents), (1, run)])
      (whole : m.whole = run ++ contents ++ run) (positive : 1 ≤ run.length) (small : run.length ≤ 3)
      (characters : forall c, c ∈ run -> c = '*' ∨ c = '_') (nonempty : contents ≠ [])
  | opening (count : Nat) (c : Char) (groups : m.groups = [(3, List.replicate count c)])
      (whole : m.whole = List.replicate count c) (positive : 1 ≤ count) (small : count ≤ 3)
      (character : c = '*' ∨ c = '_')
  | closing (count : Nat) (c : Char) (groups : m.groups = [(4, List.replicate count c)])
      (whole : m.whole = List.replicate count c) (positive : 1 ≤ count) (small : count ≤ 3)
      (character : c = '*' ∨ c = '_')

theorem run_of_emphasisCharacters {cursor final : Cursor}
    (passes : Passes (.one emphasisCharacter ++ .upTo 2 (.one emphasisCharacter)) cursor final) :
    Exists fun run : Text => 1 ≤ run.length ∧ run.length ≤ 3 ∧
      (forall c, c ∈ run -> c = '*' ∨ c = '_') ∧ cursor.Reads run final ∧
      final.groups = cursor.groups := by
  cases passes with | seq first more
  rcases first.of_one with ⟨c, here⟩
  rcases more.of_upTo with ⟨text, short, later⟩
  have run := here.trans later
  refine ⟨[c] ++ text, by simp, by simp; omega, ?_, run.1, run.2.2⟩
  intro d member
  have accepted := (accepts_oneOf ['*', '_'] d).mp (run.2.1 d member)
  simpa using accepted

theorem passes_midWordEmphasis {cursor final : Cursor} (passes : Passes midWordEmphasis cursor final)
    (noGroups : cursor.groups = []) :
    Exists fun run : Text => Exists fun contents : Text => 1 ≤ run.length ∧ run.length ≤ 3 ∧
      (forall c, c ∈ run -> c = '*' ∨ c = '_') ∧ cursor.Reads (run ++ contents ++ run) final ∧
      final.groups = [(2, contents), (1, run)] ∧ contents ≠ [] := by
  cases passes with | seq front notAhead
  cases front with | seq front back
  cases front with | seq front word
  cases front with | seq notBehind first
  cases notBehind
  cases notAhead
  rcases first.of_group with ⟨inner, run, inside, reads, rfl⟩
  rcases run_of_emphasisCharacters inside with ⟨text, positive, small, characters, readsRun, groups⟩
  obtain rfl : run = text := reads.upTo.symm.trans readsRun.upTo
  rcases word.of_group with ⟨innerToo, contents, insideToo, readsContents, rfl⟩
  have word : innerToo.groups = (1, run) :: inner.groups ∧ contents ≠ [] := by
    cases insideToo with | seq one more
    rcases one.of_one with ⟨c, here⟩
    rcases more.of_many with ⟨rest, later⟩
    have same : contents = [c] ++ rest := readsContents.upTo.symm.trans (here.trans later).1.upTo
    exact ⟨later.2.2.trans here.2.2, same ▸ List.cons_ne_nil c rest⟩
  rcases word with ⟨wordGroups, nonempty⟩
  rcases back.of_backReference with ⟨readsAgain, sameGroups⟩
  rw [groups, noGroups] at wordGroups
  dsimp only at readsAgain sameGroups
  rw [wordGroups] at readsAgain sameGroups
  exact ⟨run, contents, positive, small, characters, (reads.trans readsContents).trans readsAgain,
    sameGroups, nonempty⟩

theorem passes_openEmphasis {cursor final : Cursor} (passes : Passes openEmphasis cursor final)
    (noGroups : cursor.groups = []) :
    Exists fun count : Nat => Exists fun c : Char => (c = '*' ∨ c = '_') ∧ 1 ≤ count ∧ count ≤ 3 ∧
      cursor.Reads (List.replicate count c) final ∧
      final.groups = [(3, List.replicate count c)] := by
  rcases passes.of_group with ⟨inner, text, inside, reads, rfl⟩
  cases inside with | seq front notAhead
  cases front with | seq front notAheadToo
  cases front with | seq front notAheadSpace
  cases front with | seq run ahead
  cases notAhead
  cases notAheadToo
  cases notAheadSpace
  have marker : Exists fun count : Nat => Exists fun c : Char => (c = '*' ∨ c = '_') ∧ 1 ≤ count ∧
      count ≤ 3 ∧ cursor.Reads (List.replicate count c) inner ∧ inner.groups = cursor.groups := by
    cases ahead with
    | ahead seen =>
        rcases seen.of_one with ⟨_, _, _, sameGroups⟩
        cases run with
        | altFirst _ taken =>
            rcases passes_markerRun taken with ⟨count, positive, small, readsRun, groups⟩
            exact ⟨count, '*', Or.inl rfl, positive, small, readsRun, sameGroups.trans groups⟩
        | altSecond _ taken =>
            rcases passes_markerRun taken with ⟨count, positive, small, readsRun, groups⟩
            exact ⟨count, '_', Or.inr rfl, positive, small, readsRun, sameGroups.trans groups⟩
  rcases marker with ⟨count, c, character, positive, small, readsRun, groups⟩
  obtain rfl : text = List.replicate count c := reads.upTo.symm.trans readsRun.upTo
  exact ⟨count, c, character, positive, small, readsRun, by rw [groups, noGroups]⟩

theorem passes_closeEmphasis {cursor final : Cursor} (passes : Passes closeEmphasis cursor final)
    (noGroups : cursor.groups = []) :
    Exists fun count : Nat => Exists fun c : Char => (c = '*' ∨ c = '_') ∧ 1 ≤ count ∧ count ≤ 3 ∧
      cursor.Reads (List.replicate count c) final ∧
      final.groups = [(4, List.replicate count c)] := by
  rcases passes.of_group with ⟨inner, text, inside, reads, rfl⟩
  have marker : Exists fun count : Nat => Exists fun c : Char => (c = '*' ∨ c = '_') ∧ 1 ≤ count ∧
      count ≤ 3 ∧ cursor.Reads (List.replicate count c) inner ∧ inner.groups = cursor.groups := by
    cases inside with
    | altFirst _ taken =>
        rcases passes_markerRun taken with ⟨count, positive, small, readsRun, groups⟩
        exact ⟨count, '*', Or.inl rfl, positive, small, readsRun, groups⟩
    | altSecond _ taken =>
        rcases passes_markerRun taken with ⟨count, positive, small, readsRun, groups⟩
        exact ⟨count, '_', Or.inr rfl, positive, small, readsRun, groups⟩
  rcases marker with ⟨count, c, character, positive, small, readsRun, groups⟩
  obtain rfl : text = List.replicate count c := reads.upTo.symm.trans readsRun.upTo
  exact ⟨count, c, character, positive, small, readsRun, by rw [groups, noGroups]⟩

theorem emphasisMatch_of_search {text : Text} {m : Regex.Match}
    (found : cEmphasisExpression.search text = some m) : EmphasisMatch m := by
  rcases search_eq_some found with ⟨_, final, passes, reads, groups⟩
  cases passes with
  | altFirst _ word =>
      rcases passes_midWordEmphasis word rfl with
        ⟨run, contents, positive, small, characters, readsAll, has, nonempty⟩
      exact .word run contents (groups.trans has) (reads.upTo.symm.trans readsAll.upTo) positive small
        characters nonempty
  | altSecond _ taken =>
      cases taken with
      | altFirst _ opening =>
          rcases passes_openEmphasis opening rfl with ⟨count, c, character, positive, small, readsAll, has⟩
          exact .opening count c (groups.trans has) (reads.upTo.symm.trans readsAll.upTo) positive small
            character
      | altSecond _ closing =>
          rcases passes_closeEmphasis closing rfl with ⟨count, c, character, positive, small, readsAll, has⟩
          exact .closing count c (groups.trans has) (reads.upTo.symm.trans readsAll.upTo) positive small
            character

/-! ## The tokens of a text -/

/-- A marker as it is read. -/
def IsFresh (marker : BoldOrItalicMarker) : Prop :=
  Exists fun openMarker : Bool => Exists fun c : Char => Exists fun count : Nat =>
    marker = .fresh openMarker c count ∧ 1 ≤ count ∧ count ≤ 3

theorem emphasisTokens_word {m : Regex.Match} {run contents : Text}
    (groups : m.groups = [(2, contents), (1, run)]) :
    emphasisTokens m = [markerToken true run, .rawText contents, markerToken false run] := by
  simp [emphasisTokens, Regex.Match.matched, Regex.Match.group, groups, List.lookup_cons]

theorem emphasisTokens_opening {m : Regex.Match} {run : Text} (groups : m.groups = [(3, run)]) :
    emphasisTokens m = [markerToken true run] := by
  simp [emphasisTokens, Regex.Match.matched, Regex.Match.group, groups]

theorem emphasisTokens_closing {m : Regex.Match} {run : Text} (groups : m.groups = [(4, run)]) :
    emphasisTokens m = [markerToken false run] := by
  simp [emphasisTokens, Regex.Match.matched, Regex.Match.group, groups, List.lookup_cons]

theorem isFresh_markerToken {openMarker : Bool} {run : Text} {marker : BoldOrItalicMarker}
    (same : Token.boldOrItalicMarker marker = markerToken openMarker run) (positive : 1 ≤ run.length)
    (small : run.length ≤ 3) : IsFresh marker :=
  ⟨openMarker, run.headD '\x00', run.length, Token.boldOrItalicMarker.inj same, positive, small⟩

theorem fresh_emphasisTokens {m : Regex.Match} (kind : EmphasisMatch m) :
    AllMarkers IsFresh (emphasisTokens m) := by
  intro marker member
  cases kind with
  | word run contents groups _ positive small _ _ =>
      rw [emphasisTokens_word groups] at member
      simp only [List.mem_cons, reduceCtorEq, List.not_mem_nil, or_false, false_or] at member
      rcases member with same | same
      · exact isFresh_markerToken same positive small
      · exact isFresh_markerToken same positive small
  | opening count c groups _ positive small _ =>
      rw [emphasisTokens_opening groups, List.mem_singleton] at member
      exact isFresh_markerToken member (by simpa using positive) (by simpa using small)
  | closing count c groups _ positive small _ =>
      rw [emphasisTokens_closing groups, List.mem_singleton] at member
      exact isFresh_markerToken member (by simpa using positive) (by simpa using small)

theorem fresh_rawTokens (text : Text) : AllMarkers IsFresh (rawTokens text) := by
  intro marker member
  unfold rawTokens at member
  split at member
  · cases member
  · cases List.mem_singleton.mp member

theorem fresh_readMarkers (src : Text) : AllMarkers IsFresh (readMarkers src) := by
  unfold readMarkers
  refine allMarkers_append.mpr ⟨?_, fresh_rawTokens _⟩
  intro marker member
  rcases List.mem_flatMap.mp member with ⟨m, inside, here⟩
  rcases exists_search_of_mem inside with ⟨suffix, found⟩
  rcases List.mem_append.mp here with early | late
  · exact fresh_rawTokens _ marker early
  · exact fresh_emphasisTokens (emphasisMatch_of_search found) marker late

/-- No asterisk stands next to an underscore. -/
def Unmixed (src : Text) : Prop := ¬ ['*', '_'] <:+: src ∧ ¬ ['_', '*'] <:+: src

theorem Unmixed.ofPart {run src : Text} (unmixed : Unmixed src) (inside : run <:+: src) :
    Unmixed run :=
  ⟨fun mixed => unmixed.1 (mixed.trans inside), fun mixed => unmixed.2 (mixed.trans inside)⟩

/-- An unmixed run repeats its first character. -/
theorem eq_replicate_of_unmixed {run : Text} (unmixed : Unmixed run)
    (characters : forall c, c ∈ run -> c = '*' ∨ c = '_') :
    run = List.replicate run.length (run.headD '\x00') := by
  induction run with
  | nil => rfl
  | cons first rest inductionHypothesis =>
      have later := inductionHypothesis (unmixed.ofPart (List.suffix_cons _ _).isInfix)
        (fun c member => characters c (List.mem_cons_of_mem _ member))
      cases rest with
      | nil => rfl
      | cons second more =>
          have pair : [first, second] <:+: first :: second :: more := ⟨[], more, rfl⟩
          have same : second = first := by
            rcases characters first List.mem_cons_self with rfl | rfl
            · rcases characters second (by simp) with rfl | rfl
              · rfl
              · exact absurd pair unmixed.1
            · rcases characters second (by simp) with rfl | rfl
              · exact absurd pair unmixed.2
              · rfl
          subst same
          exact congrArg (List.cons second) later

theorem literal_markerToken {openMarker : Bool} {run : Text}
    (same : run = List.replicate run.length (run.headD '\x00')) :
    (markerToken openMarker run).literal = run := by
  rw [markerToken, Token.literal]
  exact same.symm

theorem literals_rawTokens (text : Text) : literals (rawTokens text) = text := by
  unfold rawTokens
  split
  · rename_i empty
    rw [empty]
    rfl
  · simp [literals, Token.literal]

theorem literals_emphasisTokens {m : Regex.Match} (kind : EmphasisMatch m) (unmixed : Unmixed m.whole) :
    literals (emphasisTokens m) = m.whole := by
  have single : forall {openMarker : Bool} {count : Nat} {c : Char}, 1 ≤ count ->
      literals [markerToken openMarker (List.replicate count c)] = List.replicate count c := by
    intro openMarker count c positive
    rw [literals, List.flatMap_cons, List.flatMap_nil, List.append_nil, literal_markerToken]
    rw [List.length_replicate]
    cases count with
    | zero => cases positive
    | succ count => rfl
  cases kind with
  | word run contents groups whole positive small characters _ =>
      have inside : run <:+: m.whole := ⟨[], contents ++ run, by rw [whole, List.nil_append, List.append_assoc]⟩
      have same := eq_replicate_of_unmixed (unmixed.ofPart inside) characters
      rw [emphasisTokens_word groups, whole, literals, List.flatMap_cons, List.flatMap_cons,
        List.flatMap_cons, List.flatMap_nil, literal_markerToken same, literal_markerToken same,
        List.append_nil, List.append_assoc]
      rfl
  | opening count c groups whole positive small _ =>
      rw [emphasisTokens_opening groups, whole, single positive]
  | closing count c groups whole positive small _ =>
      rw [emphasisTokens_closing groups, whole, single positive]

/-- The tokens are read from the whole text. -/
theorem literals_readMarkers {src : Text} (unmixed : Unmixed src) : literals (readMarkers src) = src := by
  have whole := flatMap_matches cEmphasisExpression src
  have each : forall m, m ∈ (cEmphasisExpression.matches_ src).1 ->
      literals (rawTokens m.before ++ emphasisTokens m) = m.before ++ m.whole := by
    intro m member
    rcases exists_search_of_mem member with ⟨suffix, found⟩
    have inside := ((matches_within _ _).1 _ member).2.1
    rw [literals_append, literals_rawTokens,
      literals_emphasisTokens (emphasisMatch_of_search found) (unmixed.ofPart inside)]
  rw [readMarkers, literals_append, literals_rawTokens, literals, List.flatMap_assoc]
  refine Eq.trans ?_ whole
  congr 1
  exact List.flatMap_congr each

/-! ## The result -/

theorem MarkerReady.of_isFresh {marker : BoldOrItalicMarker} (fresh : IsFresh marker) :
    MarkerReady (fun _ => 0) [] marker := by
  rcases fresh with ⟨openMarker, c, count, rfl, positive, small⟩
  exact .fresh _ _ openMarker c positive small

theorem closeIds_of_fresh {tokens : List Token} (fresh : AllMarkers IsFresh tokens) :
    closeIds tokens = [] := by
  apply List.filterMap_eq_nil_iff.mpr
  intro token member
  cases token with
  | boldOrItalicMarker marker =>
      rcases fresh marker member with ⟨openMarker, c, count, rfl, _, _⟩
      rw [Token.closeId]
      exact ite_self none
  | _ => rfl

theorem literal_unmatch (undone : List Nat) (token : Token) :
    (unmatch undone token).literal = token.literal := by
  cases token with
  | boldOrItalicMarker marker =>
      rw [unmatch]
      split
      · rfl
      · rfl
  | _ => rfl

/-- The limited search ends with a result or by its limit. -/
theorem findClose_error {id rounds : Nat} {openToken : BoldOrItalicMarker} {tokens : List Token}
    {fault : Fault} (failed : findClose id openToken rounds tokens = .error fault) :
    fault = .unfinished := by
  induction rounds generalizing tokens with
  | zero => exact (Except.error.inj failed).symm
  | succ rounds inductionHypothesis =>
      have onward : forall {tokens : List Token} {rest : CloseSearch -> CloseSearch},
          (findClose id openToken rounds tokens >>= fun found => .ok (rest found)) = .error fault ->
            fault = .unfinished := by
        intro tokens rest failed
        cases searched : findClose id openToken rounds tokens with
        | ok found =>
            rw [searched] at failed
            cases failed
        | error fault =>
            rw [searched] at failed
            cases failed
            exact inductionHypothesis searched
      cases tokens with
      | nil => cases failed
      | cons token rest =>
          cases token with
          | boldOrItalicMarker closeToken =>
              rw [findClose] at failed
              split at failed
              · split at failed
                · exact onward failed
                · split at failed
                  · cases failed
                  · split at failed
                    · cases failed
                    · exact onward failed
              · exact onward failed
          | text kind text => exact onward failed
          | escapedCharacter c => exact onward failed
          | container kind subTokens => exact onward failed
          | image altText url title => exact onward failed

theorem matchMarkers_error {id rounds : Nat} {tokens : List Token} {fault : Fault}
    (failed : matchMarkers rounds id tokens = .error fault) : fault = .unfinished := by
  induction rounds generalizing id tokens with
  | zero => exact (Except.error.inj failed).symm
  | succ rounds inductionHypothesis =>
      have onward : forall {id : Nat} {tokens : List Token} {token : Token},
          (matchMarkers rounds id tokens >>= fun later => .ok (token :: later)) = .error fault ->
            fault = .unfinished := by
        intro id tokens token failed
        cases searched : matchMarkers rounds id tokens with
        | ok later =>
            rw [searched] at failed
            cases failed
        | error fault =>
            rw [searched] at failed
            cases failed
            exact inductionHypothesis searched
      cases tokens with
      | nil => cases failed
      | cons token rest =>
          cases token with
          | boldOrItalicMarker openToken =>
              rw [matchMarkers] at failed
              split at failed
              · cases searched : findClose id openToken rounds rest with
                | ok found =>
                    rw [searched] at failed
                    exact onward failed
                | error fault =>
                    rw [searched] at failed
                    cases failed
                    exact findClose_error searched
              · exact onward failed
          | text kind text => exact onward failed
          | escapedCharacter c => exact onward failed
          | container kind subTokens => exact onward failed
          | image altText url title => exact onward failed

/-- The matching pass leaves markers that the nesting pass can deal with. -/
theorem matchedFrom_readMarkers {rounds : Nat} {src : Text} {paired : List Token}
    (matched : matchMarkers rounds 0 (readMarkers src) = .ok paired) :
    MatchedFrom (fun _ => 0) [] 0 (readMarkers src) paired := by
  have fresh := fresh_readMarkers src
  have ready : Ready (fun _ => 0) [] (readMarkers src) :=
    ⟨fun marker member => .of_isFresh (fresh marker member), by rw [closeIds_of_fresh fresh]; exact .nil⟩
  exact (Matches.of_matchMarkers matched).matchedFrom ready
    (fun _ member => (List.not_mem_nil member).elim)

theorem nestsFrom_readMarkers {rounds : Nat} {src : Text} {paired : List Token}
    (matched : matchMarkers rounds 0 (readMarkers src) = .ok paired) :
    Exists fun final : List Nat => findInvalid [] [] paired = .ok final ∧
      close [] (paired.flatMap (fun token => (unmatch final token).brackets)) = some [] := by
  rcases (matchedFrom_readMarkers matched).paired with ⟨size, _, pairs⟩
  rcases nestsFrom pairs (.start _) with ⟨final, found, _, _, closed⟩
  exact ⟨final, found, closed⟩

/-- Every emphasised text is properly nested: the markers that the passes leave matched
write tags that open and close in order, of sizes one to three, and all other markers
show the characters that they were read from.  The passes never fail; they can only be
cut off. -/
theorem emphasis_nested (rounds : Nat) (src : Text) :
    match processMarkers rounds (readMarkers src) with
    | .error fault => fault = .unfinished
    | .ok tokens =>
        Nested (tokens.flatMap Token.brackets) ∧
        AllMarkers (fun marker => marker.matched.isSome = true ->
          marker.writeAsHtml = marker.brackets.flatMap tag ∧ 1 ≤ marker.size ∧ marker.size ≤ 3) tokens ∧
        (Unmixed src -> literals tokens = src) := by
  rw [processMarkers]
  cases matched : matchMarkers rounds 0 (readMarkers src) with
  | error fault => exact matchMarkers_error matched
  | ok paired =>
      have result := matchedFrom_readMarkers matched
      rcases nestsFrom_readMarkers matched with ⟨final, found, closed⟩
      change match (findInvalid [] [] paired >>= fun undone => .ok (paired.map (unmatch undone))) with
        | .error fault => fault = .unfinished
        | .ok tokens => _
      rw [found]
      refine ⟨?_, ?_, ?_⟩
      · rw [List.flatMap_map]
        exact nested_of_close closed
      · intro marker member isMatched
        rcases List.mem_map.mp member with ⟨token, inside, same⟩
        cases token with
        | boldOrItalicMarker before =>
            have sound := result.sound before inside
            rw [unmatch] at same
            split at same
            · rw [← Token.boldOrItalicMarker.inj same] at isMatched
              cases isMatched
            · rw [← Token.boldOrItalicMarker.inj same] at isMatched ⊢
              rcases Option.isSome_iff_exists.mp isMatched with ⟨id, has⟩
              exact ⟨BoldOrItalicMarker.writeAsHtml_of_matched has (sound.enabled isMatched),
                sound.positive, sound.small⟩
        | _ => cases same
      · intro unmixed
        rw [literals, List.flatMap_map]
        simp only [literal_unmatch]
        exact result.literals.trans (literals_readMarkers unmixed)

end Markdown
end Webserver
