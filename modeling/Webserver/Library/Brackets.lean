import Mathlib.Logic.Basic
import Mathlib.Data.List.Basic

namespace Webserver
namespace Brackets

/-!
# Nested words

A word of opening and closing brackets, each with a name, is nested when every
bracket is closed by one of its own name and pairs do not overlap.  A stack of the
names that are open decides it.
-/

inductive Bracket (A : Type) where
  | opens (name : A)
  | closes (name : A)
deriving DecidableEq

variable {A : Type}

/-- Every pair encloses a nested word and is followed by one. -/
inductive Nested : List (Bracket A) -> Prop
  | nil : Nested []
  | wrap (name : A) {inner rest : List (Bracket A)} (inside : Nested inner) (behind : Nested rest) :
      Nested (.opens name :: inner ++ .closes name :: rest)

variable [DecidableEq A]

/-- Read a word with a stack of the names that are open; `none` when a bracket closes
another name or nothing. -/
def close : List A -> List (Bracket A) -> Option (List A)
  | stack, [] => some stack
  | stack, .opens name :: rest => close (name :: stack) rest
  | [], .closes _ :: _ => none
  | top :: below, .closes name :: rest => if name = top then close below rest else none

/-- The word closes the names of the stack from the top down, with nested words between. -/
def Unwinds : List A -> List (Bracket A) -> Prop
  | [], word => Nested word
  | top :: below, word => Exists fun inner : List (Bracket A) => Exists fun rest : List (Bracket A) =>
      word = inner ++ .closes top :: rest ∧ Nested inner ∧ Unwinds below rest

omit [DecidableEq A] in
theorem Unwinds.wrap {name : A} {inner : List (Bracket A)} (inside : Nested inner) {stack : List A}
    {rest : List (Bracket A)} (unwinds : Unwinds stack rest) :
    Unwinds stack (.opens name :: inner ++ .closes name :: rest) := by
  cases stack with
  | nil => exact Nested.wrap name inside unwinds
  | cons top below =>
      rcases unwinds with ⟨first, last, rfl, nested, onward⟩
      refine ⟨.opens name :: inner ++ .closes name :: first, last, ?_, .wrap name inside nested, onward⟩
      simp only [List.cons_append, List.append_assoc]

theorem Unwinds.of_close {stack : List A} {word : List (Bracket A)}
    (closed : close stack word = some []) : Unwinds stack word := by
  induction word generalizing stack with
  | nil =>
      obtain rfl : stack = [] := Option.some.inj closed
      exact .nil
  | cons bracket rest inductionHypothesis =>
      cases bracket with
      | opens name =>
          rcases inductionHypothesis closed with ⟨inner, last, rfl, nested, onward⟩
          exact onward.wrap nested
      | closes name =>
          cases stack with
          | nil => cases closed
          | cons top below =>
              rw [close] at closed
              split at closed
              · rename_i same
                exact ⟨[], rest, by rw [same]; rfl, .nil, inductionHypothesis closed⟩
              · cases closed

/-- A word that leaves no name open is nested. -/
theorem nested_of_close {word : List (Bracket A)} (closed : close [] word = some []) : Nested word :=
  Unwinds.of_close closed

theorem close_opens (names : List A) (stack : List A) (rest : List (Bracket A)) :
    close stack (names.map .opens ++ rest) = close (names.reverse ++ stack) rest := by
  induction names generalizing stack with
  | nil => rfl
  | cons name names inductionHypothesis =>
      rw [List.map_cons, List.cons_append, close, inductionHypothesis, List.reverse_cons,
        List.append_assoc]
      rfl

theorem close_closes (names : List A) (stack : List A) (rest : List (Bracket A)) :
    close (names ++ stack) (names.map .closes ++ rest) = close stack rest := by
  induction names with
  | nil => rfl
  | cons name names inductionHypothesis =>
      rw [List.map_cons, List.cons_append, List.cons_append, close, if_pos rfl, inductionHypothesis]

end Brackets
end Webserver
