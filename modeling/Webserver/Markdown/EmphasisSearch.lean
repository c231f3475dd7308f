import Webserver.Library.Rounds
import Webserver.Markdown.Emphasis

namespace Webserver
namespace Markdown

/-!
# The two searches of the emphasis pass

`Finds` and `Matches` say what the search for a closing marker and the loop over the
opening markers do, one constructor for each branch, without the limits on their rounds.
-/

def Token.isUnmatchedClose : Token -> Bool
  | .boldOrItalicMarker marker => marker.isUnmatchedCloseMarker
  | _ => false

def Token.isUnmatchedOpen : Token -> Bool
  | .boldOrItalicMarker marker => marker.isUnmatchedOpenMarker
  | _ => false

/-- Two markers that can be matched with each other. -/
def Fits (closeToken openToken : BoldOrItalicMarker) : Prop :=
  closeToken.tokenCharacter = openToken.tokenCharacter ∧ closeToken.size = openToken.size

/-- What the search for a closing marker does, token by token. -/
inductive Finds (id : Nat) (openToken : BoldOrItalicMarker) : List Token -> CloseSearch -> Prop
  | ended : Finds id openToken [] ⟨openToken, [], []⟩
  | other {token : Token} {rest : List Token} {found : CloseSearch}
      (noClose : token.isUnmatchedClose = false) (later : Finds id openToken rest found) :
      Finds id openToken (token :: rest) (found.after token)
  | unlike {closeToken : BoldOrItalicMarker} {rest : List Token} {found : CloseSearch}
      (unmatched : closeToken.isUnmatchedCloseMarker = true) (notTriple : closeToken.size ≠ 3)
      (notTripleToo : openToken.size ≠ 3) (unfit : ¬ Fits closeToken openToken)
      (later : Finds id openToken rest found) :
      Finds id openToken (.boldOrItalicMarker closeToken :: rest)
        (found.after (.boldOrItalicMarker closeToken))
  | splitClose {closeToken : BoldOrItalicMarker} {rest : List Token} {found : CloseSearch}
      (unmatched : closeToken.isUnmatchedCloseMarker = true) (triple : closeToken.size = 3)
      (notTriple : openToken.size ≠ 3)
      (later : Finds id openToken (splitMarker closeToken openToken.size ++ rest) found) :
      Finds id openToken (.boldOrItalicMarker closeToken :: rest)
        (found.after (.boldOrItalicMarker closeToken.disable))
  | fit {closeToken : BoldOrItalicMarker} (rest : List Token)
      (unmatched : closeToken.isUnmatchedCloseMarker = true) (fits : Fits closeToken openToken) :
      Finds id openToken (.boldOrItalicMarker closeToken :: rest)
        ⟨{ openToken with matched := some id }, [],
          .boldOrItalicMarker { closeToken with matched := some id } :: rest⟩
  | splitOpen {closeToken : BoldOrItalicMarker} (rest : List Token)
      (unmatched : closeToken.isUnmatchedCloseMarker = true) (triple : openToken.size = 3)
      (unfit : ¬ Fits closeToken openToken) :
      Finds id openToken (.boldOrItalicMarker closeToken :: rest)
        ⟨openToken.disable, splitMarker openToken closeToken.size,
          .boldOrItalicMarker closeToken :: rest⟩

theorem Finds.of_findClose {id rounds : Nat} {openToken : BoldOrItalicMarker} {tokens : List Token}
    {found : CloseSearch} (ended : findClose id openToken rounds tokens = .ok found) :
    Finds id openToken tokens found := by
  induction rounds generalizing tokens found with
  | zero => cases ended
  | succ rounds inductionHypothesis =>
      have onward : forall {token : Token} {rest : List Token}, token.isUnmatchedClose = false ->
          (findClose id openToken rounds rest >>= fun found => .ok (found.after token)) = .ok found ->
            Finds id openToken (token :: rest) found := by
        intro token rest noClose ended
        rcases Rounds.bind_eq_ok ended with ⟨found, searched, same⟩
        obtain rfl := Except.ok.inj same
        exact .other noClose (inductionHypothesis searched)
      cases tokens with
      | nil =>
          obtain rfl := Except.ok.inj ended
          exact .ended
      | cons token rest =>
          cases token with
          | boldOrItalicMarker closeToken =>
              rw [findClose] at ended
              by_cases unmatched : closeToken.isUnmatchedCloseMarker = true
              · rw [if_pos unmatched] at ended
                split at ended
                · rename_i triple
                  rcases Rounds.bind_eq_ok ended with ⟨found, searched, same⟩
                  obtain rfl := Except.ok.inj same
                  exact .splitClose unmatched triple.1 triple.2 (inductionHypothesis searched)
                · rename_i notSplit
                  split at ended
                  · rename_i fits
                    obtain rfl := Except.ok.inj ended
                    exact .fit rest unmatched fits
                  · rename_i unfit
                    split at ended
                    · rename_i triple
                      obtain rfl := Except.ok.inj ended
                      exact .splitOpen rest unmatched triple unfit
                    · rename_i notTriple
                      rcases Rounds.bind_eq_ok ended with ⟨found, searched, same⟩
                      obtain rfl := Except.ok.inj same
                      exact .unlike unmatched (fun triple => notSplit ⟨triple, notTriple⟩) notTriple
                        unfit (inductionHypothesis searched)
              · rw [if_neg unmatched] at ended
                exact onward (Bool.not_eq_true _ ▸ unmatched) ended
          | text kind text => exact onward rfl ended
          | escapedCharacter c => exact onward rfl ended
          | container kind subTokens => exact onward rfl ended
          | image altText url title => exact onward rfl ended

/-- What the loop over the opening markers does. -/
inductive Matches : Nat -> List Token -> List Token -> Prop
  | nil (id : Nat) : Matches id [] []
  | other {id : Nat} {token : Token} {rest later : List Token}
      (noOpen : token.isUnmatchedOpen = false) (onward : Matches id rest later) :
      Matches id (token :: rest) (token :: later)
  | opening {id : Nat} {openToken : BoldOrItalicMarker} {rest later : List Token}
      {found : CloseSearch} (unmatched : openToken.isUnmatchedOpenMarker = true)
      (search : Finds id openToken rest found)
      (onward : Matches (if found.openToken.matched.isSome then id + 1 else id)
        (found.split ++ found.rest) later) :
      Matches id (.boldOrItalicMarker openToken :: rest)
        (.boldOrItalicMarker found.openToken :: later)

theorem Matches.of_matchMarkers {rounds id : Nat} {tokens result : List Token}
    (ended : matchMarkers rounds id tokens = .ok result) : Matches id tokens result := by
  induction rounds generalizing id tokens result with
  | zero => cases ended
  | succ rounds inductionHypothesis =>
      have onward : forall {token : Token} {rest : List Token}, token.isUnmatchedOpen = false ->
          (matchMarkers rounds id rest >>= fun later => .ok (token :: later)) = .ok result ->
            Matches id (token :: rest) result := by
        intro token rest noOpen ended
        rcases Rounds.bind_eq_ok ended with ⟨later, searched, same⟩
        obtain rfl := Except.ok.inj same
        exact .other noOpen (inductionHypothesis searched)
      cases tokens with
      | nil =>
          obtain rfl := Except.ok.inj ended
          exact .nil id
      | cons token rest =>
          cases token with
          | boldOrItalicMarker openToken =>
              rw [matchMarkers] at ended
              split at ended
              · rename_i unmatched
                rcases Rounds.bind_eq_ok ended with ⟨found, searched, ended⟩
                rcases Rounds.bind_eq_ok ended with ⟨later, matched, same⟩
                obtain rfl := Except.ok.inj same
                exact .opening unmatched (.of_findClose searched) (inductionHypothesis matched)
              · rename_i notOpen
                exact onward (Bool.not_eq_true _ ▸ notOpen) ended
          | text kind text => exact onward rfl ended
          | escapedCharacter c => exact onward rfl ended
          | container kind subTokens => exact onward rfl ended
          | image altText url title => exact onward rfl ended

/-! ## Splits -/

/-- The first closing marker that is not matched. -/
def FirstClose (closeToken : BoldOrItalicMarker) (tokens : List Token) : Prop :=
  Exists fun front : List Token => Exists fun back : List Token =>
    tokens = front ++ .boldOrItalicMarker closeToken :: back ∧
      (forall token, token ∈ front -> token.isUnmatchedClose = false) ∧
      closeToken.isUnmatchedCloseMarker = true

theorem FirstClose.cons {closeToken : BoldOrItalicMarker} {tokens : List Token} {token : Token}
    (noClose : token.isUnmatchedClose = false) (first : FirstClose closeToken tokens) :
    FirstClose closeToken (token :: tokens) := by
  rcases first with ⟨front, back, rfl, others, unmatched⟩
  refine ⟨token :: front, back, rfl, ?_, unmatched⟩
  intro other member
  rcases List.mem_cons.mp member with rfl | later
  · exact noClose
  · exact others other later

theorem FirstClose.not_nil {closeToken : BoldOrItalicMarker} : ¬ FirstClose closeToken [] := by
  rintro ⟨front, back, same, _⟩
  cases front with
  | nil => cases same
  | cons head front => cases same

theorem FirstClose.of_cons {closeToken : BoldOrItalicMarker} {token : Token} {tokens : List Token}
    (first : FirstClose closeToken (token :: tokens)) :
    (token = .boldOrItalicMarker closeToken ∧ closeToken.isUnmatchedCloseMarker = true) ∨
      (token.isUnmatchedClose = false ∧ FirstClose closeToken tokens) := by
  rcases first with ⟨front, back, same, others, unmatched⟩
  cases front with
  | nil =>
      cases same
      exact Or.inl ⟨rfl, unmatched⟩
  | cons head front =>
      cases same
      exact Or.inr ⟨others _ List.mem_cons_self, front, back, rfl,
        fun other member => others other (List.mem_cons_of_mem _ member), unmatched⟩

/-- A closing marker in front that is not matched is the first one. -/
theorem FirstClose.head_eq {closeToken here : BoldOrItalicMarker} {tokens : List Token}
    (first : FirstClose closeToken (.boldOrItalicMarker here :: tokens))
    (unmatched : here.isUnmatchedCloseMarker = true) : here = closeToken := by
  rcases first.of_cons with ⟨same, _⟩ | ⟨noClose, _⟩
  · exact Token.boldOrItalicMarker.inj same
  · exact (Bool.false_ne_true (noClose.symm.trans unmatched)).elim

/-- What becomes of the opening marker: it stays as it is, it is matched, or it is split
at the first closing marker, which only happens to a marker of three. -/
theorem Finds.cases {id : Nat} {openToken : BoldOrItalicMarker} {tokens : List Token}
    {found : CloseSearch} (finds : Finds id openToken tokens found) :
    (found.openToken = openToken ∧ found.split = []) ∨
    (found.openToken = { openToken with matched := some id } ∧ found.split = []) ∨
    (Exists fun closeToken : BoldOrItalicMarker => openToken.size = 3 ∧
      found.openToken = openToken.disable ∧ found.split = splitMarker openToken closeToken.size ∧
      found.rest = tokens ∧ FirstClose closeToken tokens ∧ ¬ Fits closeToken openToken) := by
  induction finds with
  | ended => exact Or.inl ⟨rfl, rfl⟩
  | other noClose _ inductionHypothesis =>
      rcases inductionHypothesis with kept | matched | ⟨closeToken, triple, disabled, split, rest, first, unfit⟩
      · exact Or.inl kept
      · exact Or.inr (Or.inl matched)
      · exact Or.inr (Or.inr
          ⟨closeToken, triple, disabled, split, congrArg (List.cons _) rest, first.cons noClose, unfit⟩)
  | unlike _ _ notTriple _ _ inductionHypothesis =>
      rcases inductionHypothesis with kept | matched | ⟨_, triple, _⟩
      · exact Or.inl kept
      · exact Or.inr (Or.inl matched)
      · exact absurd triple notTriple
  | splitClose _ _ notTriple _ inductionHypothesis =>
      rcases inductionHypothesis with kept | matched | ⟨_, triple, _⟩
      · exact Or.inl kept
      · exact Or.inr (Or.inl matched)
      · exact absurd triple notTriple
  | fit => exact Or.inr (Or.inl ⟨rfl, rfl⟩)
  | splitOpen rest unmatched triple unfit =>
      exact Or.inr (Or.inr ⟨_, triple, rfl, rfl, rfl, ⟨[], rest, rfl,
        fun _ member => (List.not_mem_nil member).elim, unmatched⟩, unfit⟩)

/-- An opening marker of size zero never comes past a closing marker of three: what it
is split into starts with a closing marker of three again. -/
theorem Finds.not_of_zero {id : Nat} {openToken closeToken : BoldOrItalicMarker} {tokens : List Token}
    {found : CloseSearch} (finds : Finds id openToken tokens found) (zero : openToken.size = 0)
    (first : FirstClose closeToken tokens) (triple : closeToken.size = 3) : False := by
  induction finds generalizing closeToken with
  | ended => exact FirstClose.not_nil first
  | other noClose _ inductionHypothesis =>
      rcases first.of_cons with ⟨rfl, unmatched⟩ | ⟨_, later⟩
      · exact Bool.false_ne_true (noClose.symm.trans unmatched)
      · exact inductionHypothesis later triple
  | unlike unmatched notTriple _ _ _ _ =>
      obtain rfl := first.head_eq unmatched
      exact notTriple triple
  | @splitClose here _ _ unmatchedHere tripleHere _ _ inductionHypothesis =>
      have size : here.size - openToken.size = 3 := by
        rw [tripleHere, zero]
      have closing : here.openMarker = false := by
        simp only [BoldOrItalicMarker.isUnmatchedCloseMarker, Bool.and_eq_true, Bool.not_eq_true']
          at unmatchedHere
        exact unmatchedHere.1.1
      have again : forall rest : List Token,
          FirstClose (.fresh here.openMarker here.tokenCharacter (here.size - openToken.size))
            (splitMarker here openToken.size ++ rest) := by
        intro rest
        refine ⟨[], _, rfl, fun _ member => (List.not_mem_nil member).elim, ?_⟩
        rw [closing]
        rfl
      exact inductionHypothesis (again _) size
  | fit rest unmatched fits =>
      obtain rfl := first.head_eq unmatched
      have size := fits.2
      rw [zero, triple] at size
      cases size
  | splitOpen rest _ tripleOpen _ =>
      rw [zero] at tripleOpen
      cases tripleOpen

end Markdown
end Webserver
