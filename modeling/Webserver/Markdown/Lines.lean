import Webserver.Markdown.Tokens

namespace Webserver
namespace Markdown

/-!
# Reading a document line by line

`_getline` accepts every convention for the end of a line, also a carriage return
behind the newline, and expands tabs while it reads.
-/

def cSpacesPerInitialTab : Nat := 4

def cDefaultSpacesPerTab : Nat := cSpacesPerInitialTab

/-- The rest of the input behind a character that may be there. -/
def skip (c : Char) : Text -> Text
  | [] => []
  | next :: rest => if next = c then rest else next :: rest

/-- How many spaces a tab becomes. -/
def tabWidth (initialWhitespace : Bool) (line : Text) : Nat :=
  let convert := if initialWhitespace then cSpacesPerInitialTab else cDefaultSpacesPerTab
  convert - line.length % convert

/-- The loop of `_getline`: the line and what is left of the input, or nothing at
the end. -/
def getlineFrom (initialWhitespace : Bool) (line : Text) : Text -> Option (Text × Text)
  | [] => if line = [] then none else some (line, [])
  | c :: rest =>
      if c = '\r' then some (line, skip '\n' rest)
      else if c = '\n' then some (line, skip '\r' rest)
      else if c = '\t' then
        getlineFrom initialWhitespace (line ++ List.replicate (tabWidth initialWhitespace line) ' ') rest
      else getlineFrom (initialWhitespace && c == ' ') (line ++ [c]) rest

def getline (input : Text) : Option (Text × Text) := getlineFrom true [] input

theorem length_skip_le (c : Char) (input : Text) : (skip c input).length ≤ input.length := by
  cases input with
  | nil => exact Nat.le_refl _
  | cons next rest =>
      rw [skip]
      split
      · exact Nat.le_succ _
      · exact Nat.le_refl _

theorem getlineFrom_shorter {initialWhitespace : Bool} {line input read rest : Text}
    (got : getlineFrom initialWhitespace line input = some (read, rest)) (nonempty : input ≠ []) :
    rest.length < input.length := by
  induction input generalizing initialWhitespace line with
  | nil => exact absurd rfl nonempty
  | cons c input inductionHypothesis =>
      have onward : forall {initialWhitespace line},
          getlineFrom initialWhitespace line input = some (read, rest) ->
            rest.length < (c :: input).length := by
        intro initialWhitespace line later
        by_cases last : input = []
        · subst last
          rw [getlineFrom] at later
          split at later
          · cases later
          · cases later
            exact Nat.zero_lt_succ _
        · exact Nat.lt_succ_of_lt (inductionHypothesis later last)
      rw [getlineFrom] at got
      split at got
      · cases got
        exact Nat.lt_succ_of_le (length_skip_le _ _)
      · split at got
        · cases got
          exact Nat.lt_succ_of_le (length_skip_le _ _)
        · split at got
          · exact onward got
          · exact onward got

theorem getline_nil : getline [] = none := rfl

theorem getline_shorter {input read rest : Text} (got : getline input = some (read, rest)) :
    rest.length < input.length := by
  apply getlineFrom_shorter got
  rintro rfl
  cases got

/-- The lines that the loop of `read` takes from the input. -/
def documentLines (input : Text) : List Text :=
  match _ : getline input with
  | none => []
  | some (line, rest) => line :: documentLines rest
termination_by input.length
decreasing_by
  rename_i got
  exact getline_shorter got

/-- ` {0,3}(<--(.*)-- *> *)* *` -/
def cBlankLine : Regex :=
  .upTo 3 space ++ .many (.group 1 (.word "<--".toList ++ .group 2 (.many anything) ++
    .word "--".toList ++ .many space ++ .word ['>'] ++ .many space)) ++ .many space

def isBlankLine (line : Text) : Bool := (cBlankLine.fullMatch line).isSome

/-- The token for one line. -/
def lineToken (line : Text) : Token :=
  if isBlankLine line then .text .blankLine line else .rawText line

/-- `Document::read`, on a document that is still empty. -/
def read (src : Text) : List Token := (documentLines src).map lineToken

end Markdown
end Webserver
