import Webserver.Library.Brackets
import Webserver.Markdown.EmphasisSearch
import Mathlib.Logic.Function.Basic

namespace Webserver
namespace Markdown

open Brackets

/-!
# Emphasis is properly nested

The matching pass leaves pairs: an opening marker and a closing marker further on, of
one size, with a number that no other pair has.  Pairs can overlap.  The nesting pass
takes back enough of them, and it never looks at the top of an empty stack: the number
of a closing marker is in the stack until this marker is reached, and the numbers whose
match has been taken back are the only ones without a closing marker ahead.
-/

inductive Element where
  | em
  | strong
deriving DecidableEq

def tag : Bracket Element -> Text
  | .opens .em => "<em>".toList
  | .opens .strong => "<strong>".toList
  | .closes .em => "</em>".toList
  | .closes .strong => "</strong>".toList

/-- What emphasis of a size opens, in this order. -/
def elements (size : Nat) : List Element :=
  if size = 1 then [.em] else if size = 2 then [.strong] else [.strong, .em]

namespace BoldOrItalicMarker

/-- The tags that a marker stands for. -/
def brackets (marker : BoldOrItalicMarker) : List (Bracket Element) :=
  match marker.matched with
  | none => []
  | some _ =>
      if marker.openMarker then (elements marker.size).map .opens
      else (elements marker.size).reverse.map .closes

/-- A matched marker writes its tags. -/
theorem writeAsHtml_of_matched {marker : BoldOrItalicMarker} {id : Nat}
    (matched : marker.matched = some id) (enabled : marker.disabled = false) :
    marker.writeAsHtml = marker.brackets.flatMap tag := by
  rw [writeAsHtml, brackets, enabled, matched, openTag, closeTag, elements]
  dsimp only
  by_cases opening : marker.openMarker = true
  · simp only [opening, if_true, Bool.false_eq_true, if_false]
    split
    · rfl
    · split <;> rfl
  · simp only [opening, Bool.false_eq_true, if_false]
    split
    · rfl
    · split <;> rfl

end BoldOrItalicMarker

def Token.brackets : Token -> List (Bracket Element)
  | .boldOrItalicMarker marker => marker.brackets
  | _ => []

/-- The text that a token has been read from. -/
def Token.literal : Token -> Text
  | .boldOrItalicMarker marker =>
      if marker.disabled then [] else List.replicate marker.size marker.tokenCharacter
  | .text _ content => content
  | _ => []

def literals (tokens : List Token) : Text := tokens.flatMap Token.literal

/-! ## Pairs -/

/-- The number of a matched closing marker. -/
def Token.closeId : Token -> Option Nat
  | .boldOrItalicMarker marker => if marker.openMarker then none else marker.matched
  | _ => none

def closeIds (tokens : List Token) : List Nat := tokens.filterMap Token.closeId

theorem closeIds_opening {marker : BoldOrItalicMarker} (opening : marker.openMarker = true)
    (tokens : List Token) : closeIds (.boldOrItalicMarker marker :: tokens) = closeIds tokens :=
  List.filterMap_cons_none (by rw [Token.closeId, if_pos opening])

theorem closeIds_closing {marker : BoldOrItalicMarker} (closing : Not (marker.openMarker = true)) {id : Nat}
    (matched : marker.matched = some id) (tokens : List Token) :
    closeIds (.boldOrItalicMarker marker :: tokens) = id :: closeIds tokens :=
  List.filterMap_cons_some (by rw [Token.closeId, if_neg closing, matched])

/-- The matched markers come in pairs: an opening one, then a closing one of the size
that belongs to their number.  `opened` are the numbers opened so far. -/
def Paired (size : Nat -> Nat) : List Nat -> List Token -> Prop
  | _, [] => True
  | opened, .boldOrItalicMarker marker :: rest =>
      match marker.matched with
      | none => Paired size opened rest
      | some id =>
          marker.size = size id ∧
            if marker.openMarker then id ∉ opened ∧ id ∈ closeIds rest ∧ Paired size (id :: opened) rest
            else id ∈ opened ∧ id ∉ closeIds rest ∧ Paired size opened rest
  | opened, _ :: rest => Paired size opened rest

/-! ## The nesting pass -/

/-- The elements that are open, the innermost first, for a stack of numbers. -/
def openElements (size : Nat -> Nat) (undone stack : List Nat) : List Element :=
  (stack.filter (fun id => !undone.contains id)).flatMap (fun id => (elements (size id)).reverse)

theorem mem_dropWhile_of_not {A : Type} {test : A -> Bool} {a : A} {list : List A} (member : a ∈ list)
    (kept : test a = false) : a ∈ list.dropWhile test := by
  induction list with
  | nil => cases member
  | cons head rest inductionHypothesis =>
      rw [List.dropWhile_cons]
      split
      · rename_i dropped
        rcases List.mem_cons.mp member with rfl | later
        · rw [kept] at dropped
          cases dropped
        · exact inductionHypothesis later
      · exact member

theorem filter_dropWhile {A : Type} {test kept : A -> Bool} (apart : forall a, test a = true -> kept a = false)
    (list : List A) : (list.dropWhile test).filter kept = list.filter kept := by
  induction list with
  | nil => rfl
  | cons head rest inductionHypothesis =>
      rw [List.dropWhile_cons]
      split
      · rename_i dropped
        rw [inductionHypothesis, List.filter_cons, if_neg (by simp [apart head dropped])]
      · rfl

theorem brackets_unmatch_of_mem {undone : List Nat} {marker : BoldOrItalicMarker} {id : Nat}
    (matched : marker.matched = some id) (member : id ∈ undone) :
    (unmatch undone (.boldOrItalicMarker marker)).brackets = [] := by
  rw [unmatch, matched, Option.any_some, if_pos (List.contains_iff_mem.mpr member)]
  rfl

theorem unmatch_of_notMem {undone : List Nat} {marker : BoldOrItalicMarker} {id : Nat}
    (matched : marker.matched = some id) (absent : id ∉ undone) :
    unmatch undone (.boldOrItalicMarker marker) = .boldOrItalicMarker marker := by
  rw [unmatch, matched, Option.any_some, if_neg (fun member => absent (List.contains_iff_mem.mp member))]

theorem unmatch_of_unmatched (undone : List Nat) {marker : BoldOrItalicMarker}
    (unmatched : marker.matched = none) :
    unmatch undone (.boldOrItalicMarker marker) = .boldOrItalicMarker marker := by
  rw [unmatch, unmatched, Option.any_none, if_neg Bool.false_ne_true]

/-- What holds when the nesting pass comes to a token: `opened` are the numbers opened
so far and `closing` the numbers that are still to be closed. -/
structure NestingReady (opened stack undone closing : List Nat) : Prop where
  inStack : forall id, id ∈ opened -> id ∈ closing -> id ∈ stack
  finished : forall id, id ∈ undone -> id ∉ closing
  awaited : forall id, id ∈ stack -> id ∈ undone ∨ id ∈ closing
  unique : stack.Nodup
  known : forall id, id ∈ stack -> id ∈ opened

theorem NestingReady.start (closing : List Nat) : NestingReady [] [] [] closing := by
  have none_ : forall {P : Nat -> Prop} (id : Nat), id ∈ ([] : List Nat) -> P id :=
    fun id member => (List.not_mem_nil member).elim
  exact ⟨none_, none_, none_, .nil, none_⟩

theorem NestingReady.push {opened stack undone closing : List Nat} {id : Nat}
    (ready : NestingReady opened stack undone closing) (fresh : id ∉ opened) (closesLater : id ∈ closing) :
    NestingReady (id :: opened) (id :: stack) undone closing where
  inStack := by
    intro other isOpen ahead
    rcases List.mem_cons.mp isOpen with rfl | earlier
    · exact List.mem_cons_self
    · exact List.mem_cons_of_mem _ (ready.inStack other earlier ahead)
  finished := ready.finished
  awaited := by
    intro other member
    rcases List.mem_cons.mp member with rfl | earlier
    · exact Or.inr closesLater
    · exact ready.awaited other earlier
  unique := List.nodup_cons.mpr ⟨fun member => fresh (ready.known id member), ready.unique⟩
  known := by
    intro other member
    rcases List.mem_cons.mp member with rfl | earlier
    · exact List.mem_cons_self
    · exact List.mem_cons_of_mem _ (ready.known other earlier)

theorem NestingReady.undo {opened stack undone closing : List Nat} {id : Nat}
    (ready : NestingReady opened stack undone (id :: closing)) (last : id ∉ closing) :
    NestingReady opened stack (id :: undone) closing where
  inStack := fun other earlier ahead => ready.inStack other earlier (List.mem_cons_of_mem _ ahead)
  finished := by
    intro other gone ahead
    rcases List.mem_cons.mp gone with rfl | earlier
    · exact last ahead
    · exact ready.finished other earlier (List.mem_cons_of_mem _ ahead)
  awaited := by
    intro other member
    rcases ready.awaited other member with gone | ahead
    · exact Or.inl (List.mem_cons_of_mem _ gone)
    · exact (List.mem_cons.mp ahead).imp_left (fun same => List.mem_cons.mpr (Or.inl same))
  unique := ready.unique
  known := ready.known

theorem NestingReady.pop {opened below undone closing : List Nat} {id : Nat}
    (ready : NestingReady opened (id :: below) undone (id :: closing)) (last : id ∉ closing) :
    NestingReady opened (below.dropWhile (fun id => undone.contains id)) undone closing := by
  have smaller : (below.dropWhile (fun id => undone.contains id)).Sublist below :=
    List.dropWhile_sublist _
  refine ⟨?_, ?_, ?_, (List.nodup_cons.mp ready.unique).2.sublist smaller, ?_⟩
  · intro other earlier ahead
    have member := ready.inStack other earlier (List.mem_cons_of_mem _ ahead)
    have inBelow := (List.mem_cons.mp member).resolve_left (fun same => last (same ▸ ahead))
    have alive : other ∉ undone := fun gone => ready.finished other gone (List.mem_cons_of_mem _ ahead)
    exact mem_dropWhile_of_not inBelow (by simp [alive])
  · exact fun other gone ahead => ready.finished other gone (List.mem_cons_of_mem _ ahead)
  · intro other member
    have inBelow := smaller.subset member
    rcases ready.awaited other (List.mem_cons_of_mem _ inBelow) with gone | ahead
    · exact Or.inl gone
    · have apart : other ≠ id := fun same => (List.nodup_cons.mp ready.unique).1 (same ▸ inBelow)
      exact Or.inr ((List.mem_cons.mp ahead).resolve_left apart)
  · exact fun other member => ready.known other (List.mem_cons_of_mem _ (smaller.subset member))

/-- The nesting pass ends, and what it leaves closes everything that is open, from the
inside out. -/
def NestsFrom (size : Nat -> Nat) (stack undone : List Nat) (tokens : List Token) : Prop :=
  Exists fun final : List Nat => findInvalid stack undone tokens = .ok final ∧ undone ⊆ final ∧
    (forall id, id ∈ final -> id ∈ undone ∨ id ∈ closeIds tokens) ∧
    close (openElements size final stack)
      (tokens.flatMap (fun token => (unmatch final token).brackets)) = some []

/-- A token that the nesting pass goes past. -/
theorem NestsFrom.past {size : Nat -> Nat} {stack undone : List Nat} {token : Token} {rest : List Token}
    (later : NestsFrom size stack undone rest) (noId : token.closeId = none)
    (noBrackets : forall undone, (unmatch undone token).brackets = [])
    (same : findInvalid stack undone (token :: rest) = findInvalid stack undone rest) :
    NestsFrom size stack undone (token :: rest) := by
  rcases later with ⟨final, found, more, within_, closed⟩
  have ids : closeIds (token :: rest) = closeIds rest := List.filterMap_cons_none noId
  refine ⟨final, same.trans found, more, ids ▸ within_, ?_⟩
  rw [List.flatMap_cons, noBrackets final, List.nil_append]
  exact closed

/-- A marker that opens. -/
theorem NestsFrom.push {size : Nat -> Nat} {stack undone : List Nat} {marker : BoldOrItalicMarker}
    {id : Nat} {rest : List Token} (later : NestsFrom size (id :: stack) undone rest)
    (matched : marker.matched = some id) (opening : marker.openMarker = true)
    (sized : marker.size = size id) :
    NestsFrom size stack undone (.boldOrItalicMarker marker :: rest) := by
  rcases later with ⟨final, found, more, within_, closed⟩
  have ids := closeIds_opening opening rest
  refine ⟨final, ?_, more, ids ▸ within_, ?_⟩
  · rw [findInvalid, matched]
    dsimp only
    rw [if_pos opening, found]
  · rw [List.flatMap_cons]
    by_cases taken : id ∈ final
    · rw [brackets_unmatch_of_mem matched taken, List.nil_append]
      rwa [openElements, List.filter_cons, if_neg (by simp [taken])] at closed
    · rw [unmatch_of_notMem matched taken, Token.brackets, BoldOrItalicMarker.brackets, matched]
      dsimp only
      rw [if_pos opening, close_opens, sized]
      rwa [openElements, List.filter_cons, if_pos (by simp [taken]), List.flatMap_cons] at closed

/-- A closing marker whose match is taken back. -/
theorem NestsFrom.undo {size : Nat -> Nat} {top id : Nat} {below undone : List Nat}
    {marker : BoldOrItalicMarker} {rest : List Token}
    (later : NestsFrom size (top :: below) (id :: undone) rest) (matched : marker.matched = some id)
    (closing : Not (marker.openMarker = true)) (invalid : id ≠ top ∨ top ∈ undone) :
    NestsFrom size (top :: below) undone (.boldOrItalicMarker marker :: rest) := by
  rcases later with ⟨final, found, more, within_, closed⟩
  have ids := closeIds_closing closing matched rest
  refine ⟨final, ?_, fun other member => more (List.mem_cons_of_mem _ member), ?_, ?_⟩
  · rw [findInvalid, matched]
    dsimp only
    rw [if_neg closing, if_pos invalid, found]
  · intro other member
    rw [ids]
    rcases within_ other member with gone | ahead
    · exact (List.mem_cons.mp gone).symm.imp_right (fun same => List.mem_cons.mpr (Or.inl same))
    · exact Or.inr (List.mem_cons_of_mem _ ahead)
  · rw [List.flatMap_cons, brackets_unmatch_of_mem matched (more List.mem_cons_self), List.nil_append]
    exact closed

/-- A closing marker that fits the innermost open one. -/
theorem NestsFrom.pop {size : Nat -> Nat} {id : Nat} {below undone : List Nat}
    {marker : BoldOrItalicMarker} {rest : List Token}
    (later : NestsFrom size (below.dropWhile (fun id => undone.contains id)) undone rest)
    (matched : marker.matched = some id) (closing : Not (marker.openMarker = true))
    (sized : marker.size = size id) (live : id ∉ undone) (last : id ∉ closeIds rest) :
    NestsFrom size (id :: below) undone (.boldOrItalicMarker marker :: rest) := by
  rcases later with ⟨final, found, more, within_, closed⟩
  have ids := closeIds_closing closing matched rest
  have survives : id ∉ final := by
    intro member
    rcases within_ id member with gone | ahead
    · exact live gone
    · exact last ahead
  refine ⟨final, ?_, more, ?_, ?_⟩
  · rw [findInvalid, matched]
    dsimp only
    rw [if_neg closing, if_neg (by simp [live]), found]
  · rw [ids]
    exact fun other member => (within_ other member).imp_right (List.mem_cons_of_mem _)
  · rw [List.flatMap_cons, unmatch_of_notMem matched survives, Token.brackets,
      BoldOrItalicMarker.brackets, matched]
    dsimp only
    rw [if_neg closing, openElements, List.filter_cons, if_pos (by simp [survives]), List.flatMap_cons,
      ← sized, close_closes]
    rw [openElements, filter_dropWhile] at closed
    · exact closed
    · intro other gone
      have member := more (List.contains_iff_mem.mp gone)
      simp [member]

theorem nestsFrom {size : Nat -> Nat} {opened stack undone : List Nat} {tokens : List Token}
    (paired : Paired size opened tokens) (ready : NestingReady opened stack undone (closeIds tokens)) :
    NestsFrom size stack undone tokens := by
  induction tokens generalizing opened stack undone with
  | nil =>
      refine ⟨undone, rfl, List.Subset.refl _, fun id member => Or.inl member, ?_⟩
      have none_ : stack.filter (fun id => !undone.contains id) = [] := by
        apply List.filter_eq_nil_iff.mpr
        intro id member
        have gone := (ready.awaited id member).resolve_right List.not_mem_nil
        simp [gone]
      rw [openElements, none_]
      rfl
  | cons token rest inductionHypothesis =>
      cases token with
      | text kind text => exact (inductionHypothesis paired ready).past rfl (fun _ => rfl) rfl
      | escapedCharacter c => exact (inductionHypothesis paired ready).past rfl (fun _ => rfl) rfl
      | container kind subTokens => exact (inductionHypothesis paired ready).past rfl (fun _ => rfl) rfl
      | image altText url title => exact (inductionHypothesis paired ready).past rfl (fun _ => rfl) rfl
      | boldOrItalicMarker marker =>
          cases matched : marker.matched with
          | none =>
              have noId : (Token.boldOrItalicMarker marker).closeId = none := by
                rw [Token.closeId, matched, ite_self]
              rw [Paired, matched] at paired
              rw [closeIds, List.filterMap_cons_none noId] at ready
              refine (inductionHypothesis paired ready).past noId ?_ ?_
              · intro undone
                rw [unmatch_of_unmatched undone matched, Token.brackets,
                  BoldOrItalicMarker.brackets, matched]
              · rw [findInvalid, matched]
          | some id =>
              rw [Paired, matched] at paired
              rcases paired with ⟨sized, paired⟩
              by_cases opening : marker.openMarker = true
              · rw [if_pos opening] at paired
                rcases paired with ⟨fresh, closesLater, paired⟩
                rw [closeIds_opening opening] at ready
                exact (inductionHypothesis paired (ready.push fresh closesLater)).push matched opening sized
              · rw [if_neg opening] at paired
                rcases paired with ⟨isOpen, last, paired⟩
                rw [closeIds_closing opening matched] at ready
                have present := ready.inStack id isOpen List.mem_cons_self
                cases stack with
                | nil => cases present
                | cons top below =>
                    by_cases invalid : id ≠ top ∨ top ∈ undone
                    · exact (inductionHypothesis paired (ready.undo last)).undo matched opening invalid
                    · rw [not_or, ne_eq, Decidable.not_not] at invalid
                      rcases invalid with ⟨rfl, live⟩
                      exact (inductionHypothesis paired (ready.pop last)).pop matched opening sized live last

/-! ## The matching pass -/

/-- What is known of a marker that the matching pass has not come past: it is not an
opening one with a match, and its match belongs to a number that has been opened. -/
structure MarkerReady (size : Nat -> Nat) (opened : List Nat) (marker : BoldOrItalicMarker) : Prop where
  unopened : marker.openMarker = true -> marker.matched = none
  positive : 1 ≤ marker.size
  small : marker.size ≤ 3
  disabled : marker.disabled = true -> marker.cannotMatch = true
  paired : forall id, marker.matched = some id ->
    marker.disabled = false ∧ marker.size = size id ∧ id ∈ opened

/-- What is known of a marker in the end. -/
structure MarkerSound (marker : BoldOrItalicMarker) : Prop where
  positive : 1 ≤ marker.size
  small : marker.size ≤ 3
  enabled : marker.matched.isSome = true -> marker.disabled = false

def AllMarkers (property : BoldOrItalicMarker -> Prop) (tokens : List Token) : Prop :=
  forall marker, .boldOrItalicMarker marker ∈ tokens -> property marker

theorem allMarkers_cons {property : BoldOrItalicMarker -> Prop} {token : Token} {tokens : List Token} :
    AllMarkers property (token :: tokens) ↔
      (forall marker, token = .boldOrItalicMarker marker -> property marker) ∧
        AllMarkers property tokens := by
  constructor
  · intro all
    exact ⟨fun marker same => all marker (same ▸ List.mem_cons_self),
      fun marker member => all marker (List.mem_cons_of_mem _ member)⟩
  · rintro ⟨first, rest⟩ marker member
    rcases List.mem_cons.mp member with same | later
    · exact first marker same.symm
    · exact rest marker later

theorem allMarkers_append {property : BoldOrItalicMarker -> Prop} {first second : List Token} :
    AllMarkers property (first ++ second) ↔
      AllMarkers property first ∧ AllMarkers property second := by
  simp only [AllMarkers, List.mem_append, or_imp, forall_and]

theorem MarkerReady.fresh (size : Nat -> Nat) (opened : List Nat) (openMarker : Bool) (c : Char)
    {count : Nat} (positive : 1 ≤ count) (small : count ≤ 3) :
    MarkerReady size opened (.fresh openMarker c count) where
  unopened := fun _ => rfl
  positive := positive
  small := small
  disabled := fun wrong => by cases wrong
  paired := fun _ wrong => by cases wrong

theorem MarkerReady.disable {size : Nat -> Nat} {opened : List Nat} {marker : BoldOrItalicMarker}
    (ready : MarkerReady size opened marker) (unmatched : marker.matched = none) :
    MarkerReady size opened marker.disable where
  unopened := fun _ => unmatched
  positive := ready.positive
  small := ready.small
  disabled := fun _ => rfl
  paired := fun id matched => by
    have same : marker.matched = some id := matched
    rw [unmatched] at same
    cases same

theorem splitMarker_ready (size : Nat -> Nat) (opened : List Nat) (marker : BoldOrItalicMarker)
    {count : Nat} (triple : marker.size = 3) (positive : 1 ≤ count) (small : count ≤ 2) :
    AllMarkers (MarkerReady size opened) (splitMarker marker count) := by
  intro part member
  simp only [splitMarker, List.mem_cons, List.not_mem_nil, or_false, Token.boldOrItalicMarker.injEq]
    at member
  rcases member with rfl | rfl
  · exact .fresh size opened _ _ (by omega) (by omega)
  · exact .fresh size opened _ _ positive (by omega)

theorem closeIds_splitMarker (marker : BoldOrItalicMarker) (count : Nat) :
    closeIds (splitMarker marker count) = [] := by
  simp [closeIds, splitMarker, Token.closeId, BoldOrItalicMarker.fresh]

theorem closeIds_append (first second : List Token) :
    closeIds (first ++ second) = closeIds first ++ closeIds second :=
  List.filterMap_append

theorem closeIds_cons (token : Token) (tokens : List Token) :
    closeIds (token :: tokens) = closeIds [token] ++ closeIds tokens :=
  closeIds_append [token] tokens

theorem literals_cons (token : Token) (rest : List Token) :
    literals (token :: rest) = token.literal ++ literals rest := List.flatMap_cons

theorem literals_append (first second : List Token) :
    literals (first ++ second) = literals first ++ literals second := List.flatMap_append

/-- The two parts of a marker of three make up its text. -/
theorem literals_splitMarker {marker : BoldOrItalicMarker} (triple : marker.size = 3) {count : Nat}
    (small : count ≤ 3) :
    literals (splitMarker marker count) = List.replicate 3 marker.tokenCharacter := by
  have parts : marker.size - count + count = 3 := by omega
  simp only [literals, splitMarker, List.flatMap_cons, List.flatMap_nil, List.append_nil,
    Token.literal, BoldOrItalicMarker.fresh, Bool.false_eq_true, if_false, List.replicate_append_replicate,
    parts]

theorem isUnmatched_of_close {marker : BoldOrItalicMarker}
    (unmatched : marker.isUnmatchedCloseMarker = true) :
    marker.openMarker = false ∧ marker.matched = none ∧ marker.cannotMatch = false := by
  simp only [BoldOrItalicMarker.isUnmatchedCloseMarker, Bool.and_eq_true, Bool.not_eq_true',
    Option.isNone_iff_eq_none] at unmatched
  exact ⟨unmatched.1.1, unmatched.1.2, unmatched.2⟩

theorem isUnmatched_of_open {marker : BoldOrItalicMarker}
    (unmatched : marker.isUnmatchedOpenMarker = true) :
    marker.openMarker = true ∧ marker.matched = none ∧ marker.cannotMatch = false := by
  simp only [BoldOrItalicMarker.isUnmatchedOpenMarker, Bool.and_eq_true, Bool.not_eq_true',
    Option.isNone_iff_eq_none] at unmatched
  exact ⟨unmatched.1.1, unmatched.1.2, unmatched.2⟩

/-- A marker that can be matched is not disabled. -/
theorem MarkerReady.enabled {size : Nat -> Nat} {opened : List Nat} {marker : BoldOrItalicMarker}
    (ready : MarkerReady size opened marker) (free : marker.cannotMatch = false) :
    marker.disabled = false := by
  rw [← Bool.not_eq_true]
  intro disabled
  rw [ready.disabled disabled] at free
  cases free

theorem MarkerReady.literal {size : Nat -> Nat} {opened : List Nat} {marker : BoldOrItalicMarker}
    (ready : MarkerReady size opened marker) (free : marker.cannotMatch = false) :
    (Token.boldOrItalicMarker marker).literal = List.replicate marker.size marker.tokenCharacter := by
  rw [Token.literal, ready.enabled free, if_neg Bool.false_ne_true]

/-- A match, in the tokens behind the opening marker. -/
def IsMatch (id : Nat) (openToken marker : BoldOrItalicMarker) : Prop :=
  marker.openMarker = false ∧ marker.matched = some id ∧ marker.size = openToken.size ∧
    marker.size ≤ 3 ∧ marker.disabled = false

/-- What the search for a closing marker leaves behind the opening marker. -/
theorem Finds.rest_ready {id : Nat} {openToken : BoldOrItalicMarker} {tokens : List Token}
    {found : CloseSearch} (finds : Finds id openToken tokens found) {size : Nat -> Nat}
    {opened : List Nat} (ready : AllMarkers (MarkerReady size opened) tokens)
    (positive : 1 ≤ openToken.size) (small : openToken.size ≤ 3) :
    AllMarkers (fun marker => MarkerReady size opened marker ∨
      (found.openToken.matched = some id ∧ IsMatch id openToken marker)) found.rest := by
  induction finds with
  | ended => exact fun marker member => (List.not_mem_nil member).elim
  | other _ _ inductionHypothesis =>
      rcases allMarkers_cons.mp ready with ⟨first, rest⟩
      exact allMarkers_cons.mpr ⟨fun marker same => Or.inl (first marker same), inductionHypothesis rest⟩
  | unlike _ _ _ _ _ inductionHypothesis =>
      rcases allMarkers_cons.mp ready with ⟨first, rest⟩
      exact allMarkers_cons.mpr ⟨fun marker same => Or.inl (first marker same), inductionHypothesis rest⟩
  | splitClose unmatched triple notTriple _ inductionHypothesis =>
      rcases allMarkers_cons.mp ready with ⟨first, rest⟩
      have here := first _ rfl
      refine allMarkers_cons.mpr ⟨?_, inductionHypothesis (allMarkers_append.mpr
        ⟨splitMarker_ready size opened _ triple positive (by omega), rest⟩)⟩
      intro marker same
      rw [← Token.boldOrItalicMarker.inj same]
      exact Or.inl (here.disable (isUnmatched_of_close unmatched).2.1)
  | fit rest unmatched fits =>
      rcases allMarkers_cons.mp ready with ⟨first, others⟩
      have here := first _ rfl
      refine allMarkers_cons.mpr ⟨?_, fun marker member => Or.inl (others marker member)⟩
      intro marker same
      rw [← Token.boldOrItalicMarker.inj same]
      have free := isUnmatched_of_close unmatched
      exact Or.inr ⟨rfl, free.1, rfl, fits.2, here.small, here.enabled free.2.2⟩
  | splitOpen rest _ _ _ => exact fun marker member => Or.inl (ready marker member)

/-- The numbers of the closing markers: the search adds its own when it has a match. -/
theorem Finds.closeIds_rest {id : Nat} {openToken : BoldOrItalicMarker} {tokens : List Token}
    {found : CloseSearch} (finds : Finds id openToken tokens found)
    (unmatched : openToken.matched = none) :
    (found.openToken.matched = none ∧ closeIds found.rest = closeIds tokens) ∨
      (found.openToken = { openToken with matched := some id } ∧
        (closeIds found.rest).Perm (id :: closeIds tokens)) := by
  have step : forall {token : Token} {rest : List Token} {found : CloseSearch},
      (found.openToken.matched = none ∧ closeIds found.rest = closeIds rest) ∨
        (found.openToken = { openToken with matched := some id } ∧
          (closeIds found.rest).Perm (id :: closeIds rest)) ->
      (found.openToken.matched = none ∧
        closeIds (found.after token).rest = closeIds (token :: rest)) ∨
        (found.openToken = { openToken with matched := some id } ∧
          (closeIds (found.after token).rest).Perm
            (id :: closeIds (token :: rest))) := by
    intro token rest found later
    rw [CloseSearch.after, closeIds_cons token rest, closeIds_cons token found.rest]
    rcases later with ⟨none_, same⟩ | ⟨matched, perm⟩
    · exact Or.inl ⟨none_, by rw [same]⟩
    · exact Or.inr ⟨matched, (perm.append_left _).trans List.perm_middle⟩
  induction finds with
  | ended => exact Or.inl ⟨unmatched, rfl⟩
  | other _ _ inductionHypothesis => exact step inductionHypothesis
  | unlike _ _ _ _ _ inductionHypothesis => exact step inductionHypothesis
  | @splitClose closeToken rest found unmatchedHere _ _ _ inductionHypothesis =>
      have free := isUnmatched_of_close unmatchedHere
      have gone : forall tokens, closeIds
          (.boldOrItalicMarker closeToken.disable :: tokens) = closeIds tokens := by
        intro tokens
        refine List.filterMap_cons_none ?_
        rw [Token.closeId]
        exact (if_neg (by simp [BoldOrItalicMarker.disable, free.1])).trans free.2.1
      have same : closeIds (.boldOrItalicMarker closeToken :: rest) =
          closeIds (splitMarker closeToken openToken.size ++ rest) := by
        rw [closeIds_append, closeIds_splitMarker, List.nil_append]
        refine List.filterMap_cons_none ?_
        rw [Token.closeId, free.1, free.2.1]
        rfl
      rw [same, CloseSearch.after, gone]
      exact inductionHypothesis
  | fit rest unmatchedHere _ =>
      have free := isUnmatched_of_close unmatchedHere
      refine Or.inr ⟨rfl, ?_⟩
      rw [closeIds, closeIds, List.filterMap_cons_some (b := id),
        List.filterMap_cons_none]
      · rw [Token.closeId, free.1, free.2.1]
        rfl
      · rw [Token.closeId, free.1]
        rfl
  | splitOpen rest _ _ _ => exact Or.inl ⟨unmatched, rfl⟩

/-- The search changes no text. -/
theorem Finds.literals_rest {id : Nat} {openToken : BoldOrItalicMarker} {tokens : List Token}
    {found : CloseSearch} (finds : Finds id openToken tokens found) {size : Nat -> Nat}
    {opened : List Nat} (ready : AllMarkers (MarkerReady size opened) tokens)
    (openReady : MarkerReady size opened openToken) (free : openToken.cannotMatch = false) :
    (Token.boldOrItalicMarker found.openToken).literal ++ literals found.split =
        (Token.boldOrItalicMarker openToken).literal ∧
      literals found.rest = literals tokens := by
  induction finds with
  | ended => exact ⟨List.append_nil _, rfl⟩
  | other _ _ inductionHypothesis =>
      rcases inductionHypothesis (allMarkers_cons.mp ready).2 with ⟨here, later⟩
      exact ⟨here, by rw [CloseSearch.after, literals_cons, literals_cons, later]⟩
  | unlike _ _ _ _ _ inductionHypothesis =>
      rcases inductionHypothesis (allMarkers_cons.mp ready).2 with ⟨here, later⟩
      exact ⟨here, by rw [CloseSearch.after, literals_cons, literals_cons, later]⟩
  | @splitClose closeToken rest found unmatched triple notTriple _ inductionHypothesis =>
      rcases allMarkers_cons.mp ready with ⟨first, others⟩
      have parts := inductionHypothesis (allMarkers_append.mpr ⟨splitMarker_ready size opened _ triple
        openReady.positive (by have small := openReady.small; omega), others⟩)
      refine ⟨parts.1, ?_⟩
      have whole := (first _ rfl).literal (isUnmatched_of_close unmatched).2.2
      rw [CloseSearch.after, literals_cons, literals_cons, parts.2, literals_append,
        literals_splitMarker triple openReady.small, whole, triple]
      rfl
  | fit rest _ _ =>
      refine ⟨List.append_nil _, ?_⟩
      rw [literals_cons, literals_cons]
      rfl
  | splitOpen rest unmatched triple _ =>
      refine ⟨?_, rfl⟩
      have small := ((allMarkers_cons.mp ready).1 _ rfl).small
      rw [literals_splitMarker triple small, openReady.literal free, triple]
      rfl

/-- The tokens that the matching pass has not come past. -/
structure Ready (size : Nat -> Nat) (opened : List Nat) (tokens : List Token) : Prop where
  markers : AllMarkers (MarkerReady size opened) tokens
  unique : (closeIds tokens).Nodup

theorem MarkerReady.sound {size : Nat -> Nat} {opened : List Nat} {marker : BoldOrItalicMarker}
    (ready : MarkerReady size opened marker) : MarkerSound marker where
  positive := ready.positive
  small := ready.small
  enabled := fun matched => by
    rcases Option.isSome_iff_exists.mp matched with ⟨id, same⟩
    exact (ready.paired id same).1

/-- With another number, nothing changes for the markers of the earlier ones. -/
theorem MarkerReady.update {size : Nat -> Nat} {opened : List Nat} {marker : BoldOrItalicMarker}
    (ready : MarkerReady size opened marker) {id : Nat} (later : forall other, other ∈ opened -> other < id)
    (count : Nat) : MarkerReady (Function.update size id count) (id :: opened) marker where
  unopened := ready.unopened
  positive := ready.positive
  small := ready.small
  disabled := ready.disabled
  paired := fun other matched => by
    rcases ready.paired other matched with ⟨enabled, sized, isOpen⟩
    refine ⟨enabled, ?_, List.mem_cons_of_mem _ isOpen⟩
    rw [Function.update_of_ne (Nat.ne_of_lt (later other isOpen)), sized]

/-- A search without a match leaves ready tokens, unless it cannot come to an end. -/
theorem Finds.ready_of_unmatched {id : Nat} {openToken : BoldOrItalicMarker} {tokens later : List Token}
    {found : CloseSearch} (finds : Finds id openToken tokens found) {size : Nat -> Nat}
    {opened : List Nat} (ready : Ready size opened tokens) (openReady : MarkerReady size opened openToken)
    (unmatched : found.openToken.matched = none)
    (free : openToken.openMarker = true ∧ openToken.matched = none ∧ openToken.cannotMatch = false)
    (onward : Matches id (found.split ++ found.rest) later) :
    Ready size opened (found.split ++ found.rest) ∧
      closeIds (found.split ++ found.rest) = closeIds tokens := by
  have ids : closeIds found.rest = closeIds tokens := by
    rcases finds.closeIds_rest free.2.1 with ⟨_, same⟩ | ⟨matched, _⟩
    · exact same
    · rw [matched] at unmatched
      cases unmatched
  have markers : AllMarkers (MarkerReady size opened) found.rest := by
    intro marker member
    rcases finds.rest_ready ready.markers openReady.positive openReady.small marker member with
      here | ⟨matched, _⟩
    · exact here
    · rw [unmatched] at matched
      cases matched
  rcases finds.cases with ⟨_, whole⟩ | ⟨_, whole⟩ | ⟨closeToken, triple, _, split, rest, first, _⟩
  · rw [whole, List.nil_append]
    exact ⟨⟨markers, ids ▸ ready.unique⟩, ids⟩
  · rw [whole, List.nil_append]
    exact ⟨⟨markers, ids ▸ ready.unique⟩, ids⟩
  · have smaller : closeToken.size ≤ 2 ∧ 1 ≤ closeToken.size := by
      rcases first with ⟨front, back, same, others, close⟩
      have here := ready.markers closeToken (by rw [same]; simp)
      refine ⟨?_, here.positive⟩
      rcases Nat.lt_or_ge closeToken.size 3 with less | three
      · omega
      · have size : closeToken.size = 3 := Nat.le_antisymm here.small three
        -- The first half of the split marker is empty, and its search does not end.
        rw [split, rest, splitMarker, triple, size, free.1] at onward
        cases onward with
        | other noOpen => cases noOpen
        | opening _ search _ =>
            exact (search.not_of_zero rfl (FirstClose.cons rfl ⟨front, back, same, others, close⟩)
              size).elim
    have halves := splitMarker_ready size opened openToken triple smaller.2 smaller.1
    have allIds : closeIds (found.split ++ found.rest) = closeIds tokens := by
      rw [closeIds_append, split, closeIds_splitMarker, ids, List.nil_append]
    refine ⟨⟨?_, allIds ▸ ready.unique⟩, allIds⟩
    rw [split]
    exact allMarkers_append.mpr ⟨halves, markers⟩

theorem paired_cons_of_unmatched {size : Nat -> Nat} {opened : List Nat} {token : Token}
    {rest : List Token}
    (unmatched : forall marker, token = .boldOrItalicMarker marker -> marker.matched = none)
    (paired : Paired size opened rest) : Paired size opened (token :: rest) := by
  cases token with
  | boldOrItalicMarker marker =>
      rw [Paired, unmatched marker rfl]
      exact paired
  | text kind text => exact paired
  | escapedCharacter c => exact paired
  | container kind subTokens => exact paired
  | image altText url title => exact paired

/-- What the matching pass makes of ready tokens. -/
structure MatchedFrom (size : Nat -> Nat) (opened : List Nat) (id : Nat) (tokens result : List Token) :
    Prop where
  paired : Exists fun final : Nat -> Nat =>
    (forall other, other < id -> final other = size other) ∧ Paired final opened result
  keepsIds : closeIds tokens ⊆ closeIds result
  newIds : forall other, other ∈ closeIds result -> other ∈ closeIds tokens ∨ id ≤ other
  sound : AllMarkers MarkerSound result
  literals : literals result = literals tokens

theorem Ready.tail {size : Nat -> Nat} {opened : List Nat} {token : Token} {tokens : List Token}
    (ready : Ready size opened (token :: tokens)) : Ready size opened tokens := by
  have unique := ready.unique
  rw [closeIds_cons token tokens] at unique
  exact ⟨(allMarkers_cons.mp ready.markers).2, (List.nodup_append.mp unique).2.1⟩

/-- The numbers of ready tokens have been opened. -/
theorem Ready.isOpen {size : Nat -> Nat} {opened : List Nat} {tokens : List Token}
    (ready : Ready size opened tokens) {id : Nat} (member : id ∈ closeIds tokens) : id ∈ opened := by
  rcases List.mem_filterMap.mp member with ⟨token, inside, isClose⟩
  cases token with
  | boldOrItalicMarker marker =>
      rw [Token.closeId] at isClose
      split at isClose
      · cases isClose
      · exact ((ready.markers marker inside).paired id isClose).2.2
  | text kind text => cases isClose
  | escapedCharacter c => cases isClose
  | container kind subTokens => cases isClose
  | image altText url title => cases isClose

/-- A token that the matching pass goes past. -/
theorem MatchedFrom.past {size : Nat -> Nat} {opened : List Nat} {id : Nat} {token : Token}
    {rest later : List Token} (result : MatchedFrom size opened id rest later)
    (ready : Ready size opened (token :: rest)) (earlier : forall other, other ∈ opened -> other < id) :
    MatchedFrom size opened id (token :: rest) (token :: later) := by
  have here := (allMarkers_cons.mp ready.markers).1
  rcases result.paired with ⟨final, same, paired⟩
  refine ⟨⟨final, same, ?_⟩, ?_, ?_, ?_, ?_⟩
  · cases token with
    | boldOrItalicMarker marker =>
        cases matched : marker.matched with
        | none =>
            refine paired_cons_of_unmatched ?_ paired
            intro other equal
            rw [← Token.boldOrItalicMarker.inj equal, matched]
        | some number =>
            have known := (here marker rfl).paired number matched
            have closing : Not (marker.openMarker = true) := by
              intro opening
              rw [(here marker rfl).unopened opening] at matched
              cases matched
            have unique := ready.unique
            rw [closeIds_closing closing matched] at unique
            rw [Paired, matched]
            dsimp only
            rw [if_neg closing, same number (earlier number known.2.2)]
            refine ⟨known.2.1, known.2.2, ?_, paired⟩
            intro again
            rcases result.newIds number again with old | new
            · exact (List.nodup_cons.mp unique).1 old
            · exact absurd (earlier number known.2.2) (Nat.not_lt.mpr new)
    | text kind text => exact paired
    | escapedCharacter c => exact paired
    | container kind subTokens => exact paired
    | image altText url title => exact paired
  · rw [closeIds_cons token rest, closeIds_cons token later]
    exact List.append_subset.mpr ⟨List.subset_append_left _ _,
      fun other member => List.mem_append_right _ (result.keepsIds member)⟩
  · intro other member
    rw [closeIds_cons token later, List.mem_append] at member
    rw [closeIds_cons token rest, List.mem_append]
    rcases member with first | onward
    · exact Or.inl (Or.inl first)
    · exact (result.newIds other onward).imp_left Or.inr
  · exact allMarkers_cons.mpr ⟨fun marker same => (here marker same).sound, result.sound⟩
  · rw [literals_cons, literals_cons, result.literals]

section Opening

variable {id : Nat} {openToken : BoldOrItalicMarker} {rest later : List Token} {found : CloseSearch}
  (search : Finds id openToken rest found) {size : Nat -> Nat} {opened : List Nat}
  (ready : Ready size opened (.boldOrItalicMarker openToken :: rest))

include search ready

/-- The tokens behind an opening marker that has found its match. -/
theorem Finds.ready_of_matched (earlier : forall other, other ∈ opened -> other < id)
    (perm : (closeIds found.rest).Perm (id :: closeIds rest)) :
    Ready (Function.update size id openToken.size) (id :: opened) found.rest := by
  rcases allMarkers_cons.mp ready.markers with ⟨here, others⟩
  have openReady := here openToken rfl
  have new : id ∉ closeIds rest :=
    fun member => Nat.lt_irrefl _ (earlier id (ready.tail.isOpen member))
  refine ⟨?_, perm.nodup_iff.mpr (List.nodup_cons.mpr ⟨new, ready.tail.unique⟩)⟩
  intro marker member
  rcases search.rest_ready others openReady.positive openReady.small marker member with
    old | ⟨_, closing, isPair, sized, small, enabled⟩
  · exact old.update earlier _
  · refine ⟨?_, sized ▸ openReady.positive, small, ?_, ?_⟩
    · intro opening
      rw [closing] at opening
      cases opening
    · intro disabled
      rw [enabled] at disabled
      cases disabled
    · intro other also
      obtain rfl : id = other := Option.some.inj (isPair.symm.trans also)
      exact ⟨enabled, by rw [Function.update_self, sized], List.mem_cons_self⟩

variable (unmatched : openToken.isUnmatchedOpenMarker = true)

include unmatched

theorem Finds.literals_onward {result : List Token}
    (same : literals result = literals (found.split ++ found.rest)) :
    literals (.boldOrItalicMarker found.openToken :: result) =
      literals (.boldOrItalicMarker openToken :: rest) := by
  rcases allMarkers_cons.mp ready.markers with ⟨here, others⟩
  have texts := search.literals_rest others (here openToken rfl) (isUnmatched_of_open unmatched).2.2
  rw [literals_cons, literals_cons, same, literals_append, ← List.append_assoc, texts.1, texts.2]

/-- An opening marker that finds no match. -/
theorem Finds.matchedFrom_of_unmatched (none_ : found.openToken.matched = none)
    (ids : closeIds (found.split ++ found.rest) = closeIds rest)
    (result : MatchedFrom size opened id (found.split ++ found.rest) later) :
    MatchedFrom size opened id (.boldOrItalicMarker openToken :: rest)
      (.boldOrItalicMarker found.openToken :: later) := by
  have openReady := (allMarkers_cons.mp ready.markers).1 openToken rfl
  have free := isUnmatched_of_open unmatched
  have kept : found.openToken.openMarker = true ∧ MarkerSound found.openToken := by
    rcases search.cases with ⟨same, _⟩ | ⟨same, _⟩ | ⟨_, _, same, _⟩
    · rw [same]
      exact ⟨free.1, openReady.sound⟩
    · rw [same] at none_
      cases none_
    · rw [same]
      exact ⟨free.1, (openReady.disable free.2.1).sound⟩
  rcases result.paired with ⟨final, same, paired⟩
  refine ⟨⟨final, same, ?_⟩, ?_, ?_, ?_, search.literals_onward ready unmatched result.literals⟩
  · refine paired_cons_of_unmatched ?_ paired
    intro marker equal
    rw [← Token.boldOrItalicMarker.inj equal, none_]
  · rw [closeIds_opening free.1, closeIds_opening kept.1, ← ids]
    exact result.keepsIds
  · rw [closeIds_opening free.1, closeIds_opening kept.1, ← ids]
    exact result.newIds
  · refine allMarkers_cons.mpr ⟨?_, result.sound⟩
    intro marker equal
    rw [← Token.boldOrItalicMarker.inj equal]
    exact kept.2

/-- An opening marker that finds its match. -/
theorem Finds.matchedFrom_of_matched (earlier : forall other, other ∈ opened -> other < id)
    (matched : found.openToken = { openToken with matched := some id })
    (perm : (closeIds found.rest).Perm (id :: closeIds rest)) (whole : found.split = [])
    (result : MatchedFrom (Function.update size id openToken.size) (id :: opened) (id + 1) found.rest later) :
    MatchedFrom size opened id (.boldOrItalicMarker openToken :: rest)
      (.boldOrItalicMarker found.openToken :: later) := by
  have openReady := (allMarkers_cons.mp ready.markers).1 openToken rfl
  have free := isUnmatched_of_open unmatched
  have isMatched : found.openToken.matched = some id := by rw [matched]
  have opening : found.openToken.openMarker = true := by
    rw [matched]
    exact free.1
  have shown := result.keepsIds (perm.mem_iff.mpr List.mem_cons_self)
  rcases result.paired with ⟨final, same, paired⟩
  refine ⟨⟨final, ?_, ?_⟩, ?_, ?_, ?_, search.literals_onward ready unmatched ?_⟩
  · intro other less
    rw [same other (Nat.lt_succ_of_lt less), Function.update_of_ne (Nat.ne_of_lt less)]
  · rw [Paired, isMatched]
    dsimp only
    rw [if_pos opening]
    refine ⟨?_, fun old => Nat.lt_irrefl _ (earlier id old), shown, paired⟩
    rw [same id (Nat.lt_succ_self id), Function.update_self, matched]
  · rw [closeIds_opening free.1, closeIds_opening opening]
    exact fun other member => result.keepsIds (perm.mem_iff.mpr (List.mem_cons_of_mem _ member))
  · rw [closeIds_opening free.1, closeIds_opening opening]
    intro other member
    rcases result.newIds other member with old | newer
    · exact (List.mem_cons.mp (perm.mem_iff.mp old)).symm.imp_right (fun same => Nat.le_of_eq same.symm)
    · exact Or.inr (Nat.le_of_succ_le newer)
  · refine allMarkers_cons.mpr ⟨?_, result.sound⟩
    intro marker equal
    rw [← Token.boldOrItalicMarker.inj equal, matched]
    exact ⟨openReady.positive, openReady.small, fun _ => openReady.enabled free.2.2⟩
  · rw [result.literals, whole, List.nil_append]

end Opening

/-- The matching pass leaves pairs. -/
theorem Matches.matchedFrom {id : Nat} {tokens result : List Token} (loop : Matches id tokens result)
    {size : Nat -> Nat} {opened : List Nat} (ready : Ready size opened tokens)
    (earlier : forall other, other ∈ opened -> other < id) : MatchedFrom size opened id tokens result := by
  induction loop generalizing size opened with
  | nil id =>
      exact ⟨⟨size, fun _ _ => rfl, trivial⟩, List.Subset.refl _, fun _ member => Or.inl member,
        fun _ member => (List.not_mem_nil member).elim, rfl⟩
  | other noOpen _ inductionHypothesis =>
      exact (inductionHypothesis ready.tail earlier).past ready earlier
  | @opening id openToken rest later found unmatched search onward inductionHypothesis =>
      have openReady := (allMarkers_cons.mp ready.markers).1 openToken rfl
      have free := isUnmatched_of_open unmatched
      rcases search.closeIds_rest free.2.1 with ⟨none_, _⟩ | ⟨matched, perm⟩
      · rw [none_, Option.isSome_none, if_neg Bool.false_ne_true] at onward inductionHypothesis
        have onwardReady := search.ready_of_unmatched ready.tail openReady none_ free onward
        exact search.matchedFrom_of_unmatched ready unmatched none_ onwardReady.2
          (inductionHypothesis onwardReady.1 earlier)
      · have isMatched : found.openToken.matched = some id := by rw [matched]
        have whole : found.split = [] := by
          rcases search.cases with ⟨_, empty⟩ | ⟨_, empty⟩ | ⟨_, _, disabled, _⟩
          · exact empty
          · exact empty
          · rw [disabled] at isMatched
            exact absurd (free.2.1.symm.trans isMatched) (Option.some_ne_none id).symm
        rw [isMatched, Option.isSome_some, if_pos rfl, whole, List.nil_append] at inductionHypothesis
        have result := inductionHypothesis (search.ready_of_matched ready earlier perm)
          (fun other member => by
            rcases List.mem_cons.mp member with rfl | old
            · exact Nat.lt_succ_self _
            · exact Nat.lt_succ_of_lt (earlier other old))
        exact search.matchedFrom_of_matched ready unmatched earlier matched perm whole result

end Markdown
end Webserver
