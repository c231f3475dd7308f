import Mathlib.Logic.Relation
import Webserver.Markdown.EmphasisReading

namespace Webserver
namespace Markdown

open Regex

/-!
# Where the emphasis passes end

The loop over the opening markers splits markers of three while it runs, so it has to
be shown that it comes to an end.  It does as long as no opening marker of three meets a
closing marker of three of the other character.  There it splits the opening marker
into one of no size and one of three, and the search for the one of no size splits the
closing marker in the same way again and again.
-/

/-! ## The effort -/

/-- The rounds that a token can take.  A marker of three can become three tokens. -/
def Token.effort : Token -> Nat
  | .boldOrItalicMarker marker => if marker.size = 3 ∧ marker.cannotMatch = false then 3 else 1
  | _ => 1

def effort : List Token -> Nat
  | [] => 0
  | token :: rest => token.effort + effort rest

theorem effort_cons (token : Token) (rest : List Token) :
    effort (token :: rest) = token.effort + effort rest := rfl

theorem effort_append (first second : List Token) :
    effort (first ++ second) = effort first + effort second := by
  induction first with
  | nil => exact (Nat.zero_add _).symm
  | cons token rest inductionHypothesis =>
      rw [List.cons_append, effort_cons, effort_cons, inductionHypothesis, Nat.add_assoc]

theorem Token.effort_pos (token : Token) : 1 ≤ token.effort := by
  cases token with
  | boldOrItalicMarker marker =>
      rw [Token.effort]
      split
      · exact Nat.le_add_left 1 2
      · exact Nat.le_refl 1
  | _ => exact Nat.le_refl 1

theorem effort_triple {marker : BoldOrItalicMarker} (triple : marker.size = 3)
    (free : marker.cannotMatch = false) : (Token.boldOrItalicMarker marker).effort = 3 := by
  rw [Token.effort, if_pos ⟨triple, free⟩]

theorem effort_disable (marker : BoldOrItalicMarker) :
    (Token.boldOrItalicMarker marker.disable).effort = 1 := by
  rw [Token.effort, if_neg]
  intro both
  cases both.2

theorem effort_fresh {openMarker : Bool} {c : Char} {count : Nat} (small : count ≤ 2) :
    (Token.boldOrItalicMarker (.fresh openMarker c count)).effort = 1 := by
  rw [Token.effort, if_neg]
  rintro ⟨triple, _⟩
  have size : count = 3 := triple
  omega

theorem effort_splitMarker {marker : BoldOrItalicMarker} (triple : marker.size = 3) {count : Nat}
    (positive : 1 ≤ count) (small : count ≤ 2) : effort (splitMarker marker count) = 2 := by
  rw [splitMarker, effort_cons, effort_cons, effort_fresh (by omega), effort_fresh small]
  rfl

/-! ## Sizes -/

/-- A marker of one to three characters; one of three has a character of a certain kind. -/
structure Sized (triples : Char -> Prop) (marker : BoldOrItalicMarker) : Prop where
  positive : 1 ≤ marker.size
  small : marker.size ≤ 3
  triple : marker.size = 3 -> triples marker.tokenCharacter

theorem sized_splitMarker (triples : Char -> Prop) {marker : BoldOrItalicMarker}
    (triple : marker.size = 3) {count : Nat} (positive : 1 ≤ count) (small : count ≤ 2) :
    AllMarkers (Sized triples) (splitMarker marker count) := by
  intro part member
  simp only [splitMarker, List.mem_cons, List.not_mem_nil, or_false, Token.boldOrItalicMarker.injEq]
    at member
  rcases member with rfl | rfl
  · exact ⟨show 1 ≤ marker.size - count by omega, show marker.size - count ≤ 3 by omega,
      fun same => absurd (show marker.size - count = 3 from same) (by omega)⟩
  · exact ⟨positive, show count ≤ 3 by omega, fun same => absurd (show count = 3 from same) (by omega)⟩

theorem Finds.sized_rest {triples : Char -> Prop} {id : Nat} {openToken : BoldOrItalicMarker}
    {tokens : List Token} {found : CloseSearch} (finds : Finds id openToken tokens found)
    (positive : 1 ≤ openToken.size) (small : openToken.size ≤ 3)
    (sized : AllMarkers (Sized triples) tokens) : AllMarkers (Sized triples) found.rest := by
  induction finds with
  | ended => exact sized
  | other _ _ inductionHypothesis =>
      rcases allMarkers_cons.mp sized with ⟨first, rest⟩
      exact allMarkers_cons.mpr ⟨first, inductionHypothesis rest⟩
  | unlike _ _ _ _ _ inductionHypothesis =>
      rcases allMarkers_cons.mp sized with ⟨first, rest⟩
      exact allMarkers_cons.mpr ⟨first, inductionHypothesis rest⟩
  | splitClose _ triple notTriple _ inductionHypothesis =>
      rcases allMarkers_cons.mp sized with ⟨first, rest⟩
      have parts := sized_splitMarker triples triple positive (by omega : openToken.size ≤ 2)
      refine allMarkers_cons.mpr ⟨?_, inductionHypothesis (allMarkers_append.mpr ⟨parts, rest⟩)⟩
      intro marker same
      obtain rfl := Token.boldOrItalicMarker.inj same
      have here := first _ rfl
      exact ⟨here.positive, here.small, here.triple⟩
  | fit rest _ _ =>
      rcases allMarkers_cons.mp sized with ⟨first, others⟩
      refine allMarkers_cons.mpr ⟨?_, others⟩
      intro marker same
      obtain rfl := Token.boldOrItalicMarker.inj same
      have here := first _ rfl
      exact ⟨here.positive, here.small, here.triple⟩
  | splitOpen => exact sized

theorem Finds.effort_rest {id : Nat} {openToken : BoldOrItalicMarker} {tokens : List Token}
    {found : CloseSearch} (finds : Finds id openToken tokens found) (positive : 1 ≤ openToken.size)
    (small : openToken.size ≤ 3) : effort found.rest ≤ effort tokens := by
  induction finds with
  | ended => exact Nat.le_refl _
  | other _ _ inductionHypothesis =>
      rw [CloseSearch.after, effort_cons, effort_cons]
      exact Nat.add_le_add_left inductionHypothesis _
  | unlike _ _ _ _ _ inductionHypothesis =>
      rw [CloseSearch.after, effort_cons, effort_cons]
      exact Nat.add_le_add_left inductionHypothesis _
  | splitClose unmatched triple notTriple _ inductionHypothesis =>
      rw [effort_append, effort_splitMarker triple positive (by omega)] at inductionHypothesis
      rw [CloseSearch.after, effort_cons, effort_cons, effort_disable,
        effort_triple triple (isUnmatched_of_close unmatched).2.2]
      omega
  | fit rest _ _ =>
      rw [effort_cons, effort_cons]
      exact Nat.le_refl _
  | splitOpen => exact Nat.le_refl _

/-! ## The search for a closing marker -/

/-- Every token is gone past once, and a split closing marker is not split again. -/
theorem findClose_ends {id rounds : Nat} {openToken : BoldOrItalicMarker} {tokens : List Token}
    (positive : 1 ≤ openToken.size) (small : openToken.size ≤ 3) (enough : effort tokens < rounds) :
    Exists fun found : CloseSearch => findClose id openToken rounds tokens = .ok found := by
  induction rounds generalizing tokens with
  | zero => cases enough
  | succ rounds inductionHypothesis =>
      have onward : forall {tokens : List Token} (rest : CloseSearch -> CloseSearch),
          effort tokens < rounds -> Exists fun found : CloseSearch =>
            (findClose id openToken rounds tokens >>= fun found => .ok (rest found)) = .ok found := by
        intro tokens rest enough
        rcases inductionHypothesis enough with ⟨found, searched⟩
        exact ⟨rest found, by rw [searched]; rfl⟩
      cases tokens with
      | nil => exact ⟨_, rfl⟩
      | cons token rest =>
          have less := token.effort_pos
          rw [effort_cons] at enough
          cases token with
          | boldOrItalicMarker closeToken =>
              rw [findClose]
              split
              · rename_i unmatched
                split
                · rename_i triple
                  rw [effort_triple triple.1 (isUnmatched_of_close unmatched).2.2] at enough
                  apply onward
                  rw [effort_append, effort_splitMarker triple.1 positive (by omega)]
                  omega
                · split
                  · exact ⟨_, rfl⟩
                  · split
                    · exact ⟨_, rfl⟩
                    · exact onward _ (by omega)
              · exact onward _ (by omega)
          | text kind text => exact onward (.after _) (by omega)
          | escapedCharacter c => exact onward (.after _) (by omega)
          | container kind subTokens => exact onward (.after _) (by omega)
          | image altText url title => exact onward (.after _) (by omega)

/-! ## The loop over the opening markers -/

/-- One round of the loop. -/
inductive MarkerStep : Nat × List Token -> Nat × List Token -> Prop
  | other {id : Nat} {token : Token} {rest : List Token} (noOpen : token.isUnmatchedOpen = false) :
      MarkerStep (id, token :: rest) (id, rest)
  | opening {id : Nat} {openToken : BoldOrItalicMarker} {rest : List Token} {found : CloseSearch}
      (unmatched : openToken.isUnmatchedOpenMarker = true) (search : Finds id openToken rest found) :
      MarkerStep (id, .boldOrItalicMarker openToken :: rest)
        (if found.openToken.matched.isSome then id + 1 else id, found.split ++ found.rest)

/-- The first marker opens and the first closing marker does not fit it; both are of three
characters. -/
def Clashes (tokens : List Token) : Prop :=
  Exists fun openToken : BoldOrItalicMarker => Exists fun closeToken : BoldOrItalicMarker =>
    Exists fun rest : List Token => tokens = .boldOrItalicMarker openToken :: rest ∧
      openToken.isUnmatchedOpenMarker = true ∧ openToken.size = 3 ∧ FirstClose closeToken rest ∧
      closeToken.size = 3 ∧ closeToken.tokenCharacter ≠ openToken.tokenCharacter

/-- What an opening marker is split into, when nothing clashes. -/
theorem Finds.split_sized {id : Nat} {openToken : BoldOrItalicMarker} {rest : List Token}
    {found : CloseSearch} {triples : Char -> Prop} (search : Finds id openToken rest found)
    (unmatched : openToken.isUnmatchedOpenMarker = true)
    (sized : AllMarkers (Sized triples) (.boldOrItalicMarker openToken :: rest))
    (noClash : ¬ Clashes (.boldOrItalicMarker openToken :: rest)) :
    AllMarkers (Sized triples) (found.split ++ found.rest) ∧
      effort (found.split ++ found.rest) < effort (.boldOrItalicMarker openToken :: rest) := by
  rcases allMarkers_cons.mp sized with ⟨first, others⟩
  have here := first openToken rfl
  have restSized := search.sized_rest here.positive here.small others
  have restEffort := search.effort_rest here.positive here.small
  have less := (Token.boldOrItalicMarker openToken).effort_pos
  have alone : found.split = [] -> AllMarkers (Sized triples) (found.split ++ found.rest) ∧
      effort (found.split ++ found.rest) < effort (.boldOrItalicMarker openToken :: rest) := by
    intro none_
    rw [none_, List.nil_append, effort_cons]
    exact ⟨restSized, by omega⟩
  rcases search.cases with ⟨_, none_⟩ | ⟨_, none_⟩ | ⟨closeToken, triple, _, split, same, close, unfit⟩
  · exact alone none_
  · exact alone none_
  · have closeSized : Sized triples closeToken := by
      rcases close with ⟨front, back, whole, _⟩
      apply others
      rw [whole]
      exact List.mem_append_right _ List.mem_cons_self
    have notTriple : closeToken.size ≠ 3 := by
      intro tripleClose
      apply noClash
      refine ⟨openToken, closeToken, rest, rfl, unmatched, triple, close, tripleClose, ?_⟩
      exact fun sameCharacter => unfit ⟨sameCharacter, tripleClose.trans triple.symm⟩
    have small : closeToken.size ≤ 2 := by
      have atMost := closeSized.small
      omega
    rw [split]
    refine ⟨allMarkers_append.mpr ⟨sized_splitMarker triples triple closeSized.positive small, restSized⟩, ?_⟩
    rw [effort_append, effort_splitMarker triple closeSized.positive small, effort_cons,
      effort_triple triple (isUnmatched_of_open unmatched).2.2]
    omega

theorem MarkerStep.sized {triples : Char -> Prop} {state next : Nat × List Token}
    (step : MarkerStep state next) (sized : AllMarkers (Sized triples) state.2)
    (noClash : ¬ Clashes state.2) :
    AllMarkers (Sized triples) next.2 ∧ effort next.2 < effort state.2 := by
  cases step with
  | @other id token rest _ =>
      refine ⟨(allMarkers_cons.mp sized).2, ?_⟩
      have less := token.effort_pos
      dsimp only
      rw [effort_cons]
      omega
  | opening unmatched search => exact search.split_sized unmatched sized noClash

open Relation

/-- Without a clash the loop ends. -/
theorem matchMarkers_ends {rounds id : Nat} {tokens : List Token}
    (sized : AllMarkers (Sized fun _ => True) tokens) (enough : effort tokens < rounds)
    (noClash : forall state, ReflTransGen MarkerStep (id, tokens) state -> ¬ Clashes state.2) :
    Exists fun result : List Token => matchMarkers rounds id tokens = .ok result := by
  induction rounds generalizing id tokens with
  | zero => cases enough
  | succ rounds inductionHypothesis =>
      have onward : forall {id' : Nat} {tokens' : List Token} (token : Token),
          MarkerStep (id, tokens) (id', tokens') -> Exists fun result : List Token =>
            (matchMarkers rounds id' tokens' >>= fun later => .ok (token :: later)) = .ok result := by
        intro id' tokens' token step
        rcases step.sized sized (noClash _ .refl) with ⟨nextSized, less⟩
        dsimp only at nextSized less
        rcases inductionHypothesis nextSized (by omega)
          (fun state more => noClash state (.head step more)) with ⟨later, matched⟩
        exact ⟨token :: later, by rw [matched]; rfl⟩
      cases tokens with
      | nil => exact ⟨_, rfl⟩
      | cons token rest =>
          cases token with
          | boldOrItalicMarker openToken =>
              rw [matchMarkers]
              split
              · rename_i unmatched
                have here := sized openToken List.mem_cons_self
                have less := (Token.boldOrItalicMarker openToken).effort_pos
                rw [effort_cons] at enough
                have short : effort rest < rounds := by omega
                rcases findClose_ends here.positive here.small short with ⟨found, searched⟩
                rw [searched]
                exact onward _ (.opening unmatched (.of_findClose searched))
              · rename_i notOpen
                exact onward _ (.other (Bool.not_eq_true _ ▸ notOpen))
          | text kind text => exact onward _ (.other rfl)
          | escapedCharacter c => exact onward _ (.other rfl)
          | container kind subTokens => exact onward _ (.other rfl)
          | image altText url title => exact onward _ (.other rfl)

/-! ## Clashes -/

/-- The search goes past what is no closing marker. -/
theorem Finds.of_other {id : Nat} {openToken : BoldOrItalicMarker} {token : Token} {rest : List Token}
    {found : CloseSearch} (finds : Finds id openToken (token :: rest) found)
    (noClose : token.isUnmatchedClose = false) :
    Exists fun later : CloseSearch => Finds id openToken rest later ∧ found = later.after token := by
  cases finds with
  | other _ later => exact ⟨_, later, rfl⟩
  | unlike unmatched _ _ _ _ => exact absurd (noClose.symm.trans unmatched) Bool.false_ne_true
  | splitClose unmatched _ _ _ => exact absurd (noClose.symm.trans unmatched) Bool.false_ne_true
  | fit _ unmatched _ => exact absurd (noClose.symm.trans unmatched) Bool.false_ne_true
  | splitOpen _ unmatched _ _ => exact absurd (noClose.symm.trans unmatched) Bool.false_ne_true

/-- The search for a closing marker has one result. -/
theorem Finds.unique {id : Nat} {openToken : BoldOrItalicMarker} {tokens : List Token}
    {first second : CloseSearch} (finds : Finds id openToken tokens first)
    (again : Finds id openToken tokens second) : first = second := by
  induction finds generalizing second with
  | ended =>
      cases again
      rfl
  | other noClose _ inductionHypothesis =>
      rcases again.of_other noClose with ⟨found, later, rfl⟩
      rw [inductionHypothesis later]
  | unlike unmatched notTriple notTripleToo unfit _ inductionHypothesis =>
      cases again with
      | other noClose _ => exact absurd (noClose.symm.trans unmatched) Bool.false_ne_true
      | unlike _ _ _ _ later => rw [inductionHypothesis later]
      | splitClose _ triple _ _ => exact absurd triple notTriple
      | fit _ _ fits => exact absurd fits unfit
      | splitOpen _ _ triple _ => exact absurd triple notTripleToo
  | splitClose unmatched triple notTriple _ inductionHypothesis =>
      cases again with
      | other noClose _ => exact absurd (noClose.symm.trans unmatched) Bool.false_ne_true
      | unlike _ wrong _ _ _ => exact absurd triple wrong
      | splitClose _ _ _ later => rw [inductionHypothesis later]
      | fit _ _ fits => exact absurd (fits.2.symm.trans triple) notTriple
      | splitOpen _ _ wrong _ => exact absurd wrong notTriple
  | fit rest unmatched fits =>
      cases again with
      | other noClose _ => exact absurd (noClose.symm.trans unmatched) Bool.false_ne_true
      | unlike _ _ _ unfit _ => exact absurd fits unfit
      | splitClose _ triple notTriple _ => exact absurd (fits.2.symm.trans triple) notTriple
      | fit _ _ _ => rfl
      | splitOpen _ _ _ unfit => exact absurd fits unfit
  | splitOpen rest unmatched triple unfit =>
      cases again with
      | other noClose _ => exact absurd (noClose.symm.trans unmatched) Bool.false_ne_true
      | unlike _ _ notTriple _ _ => exact absurd triple notTriple
      | splitClose _ _ notTriple _ => exact absurd triple notTriple
      | fit _ _ fits => exact absurd fits unfit
      | splitOpen _ _ _ _ => rfl

/-- A state that the loop gets through leads only to such states. -/
theorem Matches.step {id : Nat} {tokens result : List Token} (loop : Matches id tokens result)
    {next : Nat × List Token} (step : MarkerStep (id, tokens) next) :
    Exists fun later : List Token => Matches next.1 next.2 later := by
  cases loop with
  | nil => cases step
  | other noOpen onward =>
      cases step with
      | other => exact ⟨_, onward⟩
      | opening unmatched _ => exact absurd (noOpen.symm.trans unmatched) Bool.false_ne_true
  | opening unmatched search onward =>
      cases step with
      | other noOpen => exact absurd (noOpen.symm.trans unmatched) Bool.false_ne_true
      | opening _ searchToo => exact ⟨_, searchToo.unique search ▸ onward⟩

theorem Matches.steps {state next : Nat × List Token} (steps : ReflTransGen MarkerStep state next)
    {result : List Token} (loop : Matches state.1 state.2 result) :
    Exists fun later : List Token => Matches next.1 next.2 later := by
  induction steps with
  | refl => exact ⟨result, loop⟩
  | tail _ step inductionHypothesis =>
      rcases inductionHypothesis with ⟨later, reached⟩
      exact reached.step step

/-- An opening marker of three is split at the first closing marker that does not fit. -/
theorem Finds.of_firstClose {id : Nat} {openToken closeToken : BoldOrItalicMarker} {tokens : List Token}
    {found : CloseSearch} (finds : Finds id openToken tokens found) (triple : openToken.size = 3)
    (first : FirstClose closeToken tokens) (unfit : ¬ Fits closeToken openToken) :
    found.split = splitMarker openToken closeToken.size ∧ found.rest = tokens := by
  rcases first with ⟨front, back, rfl, others, unmatched⟩
  induction front generalizing found with
  | nil =>
      cases finds with
      | other noClose _ => exact absurd (noClose.symm.trans unmatched) Bool.false_ne_true
      | unlike _ _ notTriple _ _ => exact absurd triple notTriple
      | splitClose _ _ notTriple _ => exact absurd triple notTriple
      | fit _ _ fits => exact absurd fits unfit
      | splitOpen _ _ _ _ => exact ⟨rfl, rfl⟩
  | cons token front inductionHypothesis =>
      rcases finds.of_other (others token List.mem_cons_self) with ⟨found, later, rfl⟩
      have result := inductionHypothesis later
        (fun other member => others other (List.mem_cons_of_mem _ member))
      exact ⟨result.1, congrArg (List.cons token) result.2⟩

/-- From a clash the loop does not come to an end. -/
theorem Matches.not_of_clashes {id : Nat} {tokens result : List Token} (loop : Matches id tokens result)
    (clash : Clashes tokens) : False := by
  rcases clash with ⟨openToken, closeToken, rest, rfl, unmatched, triple, first, tripleClose, apart⟩
  cases loop with
  | other noOpen _ => exact absurd (noOpen.symm.trans unmatched) Bool.false_ne_true
  | opening _ search onward =>
      rcases search.of_firstClose triple first (fun fits => apart fits.1) with ⟨split, same⟩
      rw [split, same, tripleClose, splitMarker, triple] at onward
      cases onward with
      | other noOpen _ =>
          have opening := (isUnmatched_of_open unmatched).1
          rw [Token.isUnmatchedOpen, opening] at noOpen
          cases noOpen
      | opening _ searchToo _ =>
          have notClose : (Token.boldOrItalicMarker
              (.fresh openToken.openMarker openToken.tokenCharacter 3)).isUnmatchedClose = false := by
            rw [(isUnmatched_of_open unmatched).1]
            rfl
          exact searchToo.not_of_zero rfl (first.cons notClose) tripleClose

/-! ## Texts -/

theorem effort_rawTokens (text : Text) : effort (rawTokens text) ≤ text.length := by
  unfold rawTokens
  split
  · exact Nat.zero_le _
  · rename_i nonempty
    exact List.length_pos_iff.mpr nonempty

theorem effort_fresh_le {openMarker : Bool} {c : Char} {count : Nat} (positive : 1 ≤ count) :
    (Token.boldOrItalicMarker (.fresh openMarker c count)).effort ≤ count := by
  rw [Token.effort]
  split
  · rename_i triple
    exact Nat.le_of_eq triple.1.symm
  · exact positive

theorem effort_markerToken (openMarker : Bool) {run : Text} (positive : 1 ≤ run.length) :
    (markerToken openMarker run).effort ≤ run.length := effort_fresh_le positive

theorem effort_emphasisTokens {m : Regex.Match} (kind : EmphasisMatch m) :
    effort (emphasisTokens m) ≤ m.whole.length := by
  have alone : forall (openMarker : Bool) {run : Text}, 1 ≤ run.length ->
      effort [markerToken openMarker run] ≤ run.length := by
    intro openMarker run positive
    rw [effort_cons]
    exact effort_markerToken openMarker positive
  cases kind with
  | word run contents groups whole positive small characters nonempty =>
      have first := effort_markerToken true positive
      have last := effort_markerToken false positive
      have more := List.length_pos_iff.mpr nonempty
      rw [emphasisTokens_word groups, effort_cons, effort_cons, effort_cons, whole, List.length_append,
        List.length_append]
      change _ + (1 + (_ + 0)) ≤ _
      omega
  | opening count c groups whole positive small _ =>
      rw [emphasisTokens_opening groups, whole]
      exact alone true (by rwa [List.length_replicate])
  | closing count c groups whole positive small _ =>
      rw [emphasisTokens_closing groups, whole]
      exact alone false (by rwa [List.length_replicate])

theorem effort_flatMap_le {A : Type} {tokens : A -> List Token} {text : A -> Text} {list : List A}
    (each : forall a, a ∈ list -> effort (tokens a) ≤ (text a).length) :
    effort (list.flatMap tokens) ≤ (list.flatMap text).length := by
  induction list with
  | nil => exact Nat.le_refl _
  | cons first rest inductionHypothesis =>
      rw [List.flatMap_cons, List.flatMap_cons, effort_append, List.length_append]
      exact Nat.add_le_add (each first List.mem_cons_self)
        (inductionHypothesis fun a member => each a (List.mem_cons_of_mem _ member))

/-- The loop needs no more rounds than the text has characters. -/
theorem effort_readMarkers (src : Text) : effort (readMarkers src) ≤ src.length := by
  have whole := flatMap_matches cEmphasisExpression src
  have each : forall m, m ∈ (cEmphasisExpression.matches_ src).1 ->
      effort (rawTokens m.before ++ emphasisTokens m) ≤ (m.before ++ m.whole).length := by
    intro m member
    rcases exists_search_of_mem member with ⟨suffix, found⟩
    rw [effort_append, List.length_append]
    exact Nat.add_le_add (effort_rawTokens m.before)
      (effort_emphasisTokens (emphasisMatch_of_search found))
  rw [readMarkers, effort_append, ← congrArg List.length whole, List.length_append]
  exact Nat.add_le_add (effort_flatMap_le each) (effort_rawTokens _)

/-- Three characters in a row, each of them an asterisk or an underscore, the first of which
is the given one. -/
def Tripled (c : Char) (src : Text) : Prop :=
  Exists fun run : Text => run <:+: src ∧ run.length = 3 ∧ run.head? = some c ∧
    forall d, d ∈ run -> d = '*' ∨ d = '_'

theorem Tripled.ofPart {c : Char} {run src : Text} (tripled : Tripled c run) (inside : run <:+: src) :
    Tripled c src := by
  rcases tripled with ⟨triple, within_, parts⟩
  exact ⟨triple, within_.trans inside, parts⟩

theorem tripled_of_length {run : Text} (characters : forall c, c ∈ run -> c = '*' ∨ c = '_')
    (triple : run.length = 3) : Tripled (run.headD '\x00') run := by
  cases run with
  | nil => cases triple
  | cons first rest => exact ⟨first :: rest, List.infix_rfl, triple, rfl, characters⟩

theorem sized_markerToken {triples : Char -> Prop} {openMarker : Bool} {run whole : Text}
    {marker : BoldOrItalicMarker} (same : Token.boldOrItalicMarker marker = markerToken openMarker run)
    (positive : 1 ≤ run.length) (small : run.length ≤ 3)
    (characters : forall c, c ∈ run -> c = '*' ∨ c = '_') (inside : run <:+: whole)
    (kinds : forall c, Tripled c whole -> triples c) : Sized triples marker := by
  obtain rfl := Token.boldOrItalicMarker.inj same
  exact ⟨positive, small, fun triple => kinds _ ((tripled_of_length characters triple).ofPart inside)⟩

/-- A marker of three comes from three characters in a row. -/
theorem sized_emphasisTokens {triples : Char -> Prop} {m : Regex.Match} (kind : EmphasisMatch m)
    (kinds : forall c, Tripled c m.whole -> triples c) :
    AllMarkers (Sized triples) (emphasisTokens m) := by
  have alone : forall {openMarker : Bool} {count : Nat} {c : Char}, m.whole = List.replicate count c ->
      1 ≤ count -> count ≤ 3 -> (c = '*' ∨ c = '_') ->
      AllMarkers (Sized triples) [markerToken openMarker (List.replicate count c)] := by
    intro openMarker count c whole positive small character marker member
    refine sized_markerToken (List.mem_singleton.mp member) ?_ ?_ ?_ ?_ kinds
    · rwa [List.length_replicate]
    · rwa [List.length_replicate]
    · intro d inRun
      rw [List.eq_of_mem_replicate inRun]
      exact character
    · rw [whole]
  cases kind with
  | word run contents groups whole positive small characters _ =>
      have inside : run <:+: m.whole := by
        rw [whole, List.append_assoc]
        exact (List.prefix_append _ _).isInfix
      intro marker member
      rw [emphasisTokens_word groups] at member
      simp only [List.mem_cons, reduceCtorEq, List.not_mem_nil, or_false, false_or] at member
      rcases member with same | same
      · exact sized_markerToken same positive small characters inside kinds
      · exact sized_markerToken same positive small characters inside kinds
  | opening count c groups whole positive small character =>
      rw [emphasisTokens_opening groups]
      exact alone whole positive small character
  | closing count c groups whole positive small character =>
      rw [emphasisTokens_closing groups]
      exact alone whole positive small character

theorem sized_rawTokens (triples : Char -> Prop) (text : Text) :
    AllMarkers (Sized triples) (rawTokens text) := by
  intro marker member
  unfold rawTokens at member
  split at member
  · cases member
  · cases List.mem_singleton.mp member

theorem sized_readMarkers {triples : Char -> Prop} {src : Text}
    (kinds : forall c, Tripled c src -> triples c) : AllMarkers (Sized triples) (readMarkers src) := by
  unfold readMarkers
  refine allMarkers_append.mpr ⟨?_, sized_rawTokens _ _⟩
  intro marker member
  rcases List.mem_flatMap.mp member with ⟨m, inside, here⟩
  rcases exists_search_of_mem inside with ⟨suffix, found⟩
  rcases List.mem_append.mp here with early | late
  · exact sized_rawTokens _ _ marker early
  · refine sized_emphasisTokens (emphasisMatch_of_search found) ?_ marker late
    exact fun c tripled => kinds c (tripled.ofPart ((matches_within _ _).1 _ inside).2.1)

/-- Markers of three of one character do not clash. -/
theorem not_clashes_of_sized {c : Char} {tokens : List Token}
    (sized : AllMarkers (Sized fun d => d = c) tokens) : ¬ Clashes tokens := by
  rintro ⟨openToken, closeToken, rest, rfl, _, triple, first, tripleClose, apart⟩
  rcases first with ⟨front, back, rfl, _⟩
  have opening := (sized openToken List.mem_cons_self).triple triple
  have closing := (sized closeToken
    (List.mem_cons_of_mem _ (List.mem_append_right _ List.mem_cons_self))).triple tripleClose
  exact apart (closing.trans opening.symm)

theorem MarkerStep.sized_steps {c : Char} {state next : Nat × List Token}
    (steps : ReflTransGen MarkerStep state next) (sized : AllMarkers (Sized fun d => d = c) state.2) :
    AllMarkers (Sized fun d => d = c) next.2 := by
  induction steps with
  | refl => exact sized
  | tail _ step inductionHypothesis =>
      exact (step.sized inductionHypothesis (not_clashes_of_sized inductionHypothesis)).1

/-! ## The passes -/

theorem processMarkers_ends {rounds : Nat} {src : Text} (long : src.length < rounds)
    (noClash : forall state, ReflTransGen MarkerStep (0, readMarkers src) state -> ¬ Clashes state.2) :
    Exists fun tokens : List Token => processMarkers rounds (readMarkers src) = .ok tokens := by
  have sized : AllMarkers (Sized fun _ => True) (readMarkers src) := sized_readMarkers fun _ _ => trivial
  have enough : effort (readMarkers src) < rounds := Nat.lt_of_le_of_lt (effort_readMarkers src) long
  rcases matchMarkers_ends sized enough noClash with ⟨paired, matched⟩
  rcases nestsFrom_readMarkers matched with ⟨final, found, _⟩
  refine ⟨paired.map (unmatch final), ?_⟩
  rw [processMarkers, matched]
  change (findInvalid [] [] paired >>= fun undone => .ok (paired.map (unmatch undone))) = _
  rw [found]
  rfl

/-- The emphasis passes end, after at most as many rounds as the text has characters,
unless the loop comes to a clash.  Then they never end. -/
theorem emphasis_ends_unless_clash (src : Text) :
    ((forall state, ReflTransGen MarkerStep (0, readMarkers src) state -> ¬ Clashes state.2) ->
      forall rounds, src.length < rounds ->
        Exists fun tokens : List Token => processMarkers rounds (readMarkers src) = .ok tokens) ∧
    (forall state, ReflTransGen MarkerStep (0, readMarkers src) state -> Clashes state.2 ->
      forall rounds, processMarkers rounds (readMarkers src) = .error .unfinished) := by
  constructor
  · intro noClash rounds long
    exact processMarkers_ends long noClash
  · intro state steps clash rounds
    rw [processMarkers]
    cases matched : matchMarkers rounds 0 (readMarkers src) with
    | error fault => exact congrArg Except.error (matchMarkers_error matched)
    | ok paired =>
        rcases Matches.steps steps (Matches.of_matchMarkers matched) with ⟨later, loop⟩
        exact (loop.not_of_clashes clash).elim

/-- The emphasis passes end for every text that does not have both three asterisks or
underscores in a row that begin with an asterisk and three that begin with an underscore. -/
theorem emphasis_ends {src : Text} (oneKind : ¬ (Tripled '*' src ∧ Tripled '_' src)) {rounds : Nat}
    (long : src.length < rounds) :
    Exists fun tokens : List Token => processMarkers rounds (readMarkers src) = .ok tokens := by
  have one : Exists fun c : Char => forall d, Tripled d src -> d = c := by
    have character : forall d, Tripled d src -> d = '*' ∨ d = '_' := by
      rintro d ⟨run, _, _, first, characters⟩
      exact characters d (List.mem_of_head? first)
    by_cases asterisks : Tripled '*' src
    · refine ⟨'*', fun d tripled => (character d tripled).resolve_right ?_⟩
      rintro rfl
      exact oneKind ⟨asterisks, tripled⟩
    · refine ⟨'_', fun d tripled => (character d tripled).resolve_left ?_⟩
      rintro rfl
      exact asterisks tripled
  rcases one with ⟨c, kinds⟩
  have sized := sized_readMarkers kinds
  exact processMarkers_ends long
    fun state steps => not_clashes_of_sized (MarkerStep.sized_steps steps sized)

theorem emphasis_ends_asterisks :
    Exists fun tokens : List Token =>
      processMarkers 10 (readMarkers "***a** b*".toList) = .ok tokens := by
  apply emphasis_ends
  · rintro ⟨_, run, inside, _, first, _⟩
    have member : '_' ∈ "***a** b*".toList := inside.subset (List.mem_of_head? first)
    revert member
    decide
  · decide

end Markdown
end Webserver
