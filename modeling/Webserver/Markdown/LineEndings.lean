import Webserver.Markdown.Document

namespace Webserver
namespace Markdown

/-!
# Line endings

Browsers end the lines of a form's text with a carriage return and a newline, editors
with a newline.  The converter makes the same of a document with either ending, and of
one with the endings of older systems.
-/

/-- The ways in which a line can end. -/
def lineEndings : List Text := [['\n'], ['\r'], ['\r', '\n'], ['\n', '\r']]

/-- The text has one line. -/
def OneLine (line : Text) : Prop := '\r' ∉ line ∧ '\n' ∉ line

/-- Lines with an ending behind each. -/
def terminated (ending : Text) (lines : List Text) : Text := lines.flatMap (fun line => line ++ ending)

/-- The line as it is read, with spaces for its tabs. -/
def expandTabs (initialWhitespace : Bool) (line : Text) : Text -> Text
  | [] => line
  | c :: rest =>
      if c = '\t' then
        expandTabs initialWhitespace (line ++ List.replicate (tabWidth initialWhitespace line) ' ') rest
      else expandTabs (initialWhitespace && c == ' ') (line ++ [c]) rest

/-- Reading goes through the characters of a line. -/
theorem getlineFrom_append {line : Text} (oneLine : OneLine line) (initialWhitespace : Bool)
    (read rest : Text) : Exists fun initialToo : Bool =>
      getlineFrom initialWhitespace read (line ++ rest) =
        getlineFrom initialToo (expandTabs initialWhitespace read line) rest := by
  induction line generalizing initialWhitespace read with
  | nil => exact ⟨initialWhitespace, rfl⟩
  | cons c line inductionHypothesis =>
      rcases oneLine with ⟨noReturn, noNewline⟩
      simp only [List.mem_cons, not_or] at noReturn noNewline
      have onward := inductionHypothesis ⟨noReturn.2, noNewline.2⟩
      rw [List.cons_append, getlineFrom, if_neg (Ne.symm noReturn.1), if_neg (Ne.symm noNewline.1),
        expandTabs]
      split
      · exact onward _ _
      · exact onward _ _

/-- Behind a line with this ending, the next line can start. -/
def Follows (ending rest : Text) : Prop :=
  forall symbol, rest.head? = some symbol ->
    ending.head? = some symbol ∨ (symbol ≠ '\r' ∧ symbol ≠ '\n')

/-- An ending ends the line and is passed whole. -/
theorem getlineFrom_ending {ending : Text} (known : ending ∈ lineEndings) {rest : Text}
    (follows : Follows ending rest) (initialWhitespace : Bool) (read : Text) :
    getlineFrom initialWhitespace read (ending ++ rest) = some (read, rest) := by
  have unskipped : forall partner : Char, (partner = '\r' ∨ partner = '\n') -> ending.head? ≠ some partner ->
      skip partner rest = rest := by
    intro partner kind apart
    cases rest with
    | nil => rfl
    | cons next rest =>
        rw [skip, if_neg]
        rintro rfl
        rcases follows next rfl with same | ⟨notReturn, notNewline⟩
        · exact apart same
        · rcases kind with same | same
          · exact notReturn same
          · exact notNewline same
  simp only [lineEndings, List.mem_cons, List.not_mem_nil, or_false] at known
  rcases known with rfl | rfl | rfl | rfl
  · rw [List.singleton_append, getlineFrom, if_neg (by decide), if_pos rfl,
      unskipped '\r' (Or.inl rfl) (by decide)]
  · rw [List.singleton_append, getlineFrom, if_pos rfl, unskipped '\n' (Or.inr rfl) (by decide)]
  · rfl
  · rfl

theorem follows_terminated {ending : Text} (known : ending ∈ lineEndings) {lines : List Text}
    (oneLine : forall line, line ∈ lines -> OneLine line) : Follows ending (terminated ending lines) := by
  intro symbol first
  cases lines with
  | nil => cases first
  | cons line lines =>
      rw [terminated, List.flatMap_cons, List.append_assoc] at first
      rcases oneLine line List.mem_cons_self with ⟨noReturn, noNewline⟩
      cases line with
      | nil =>
          left
          cases ending with
          | nil => simp [lineEndings] at known
          | cons c rest => exact first
      | cons c line =>
          obtain rfl := Option.some.inj first
          right
          exact ⟨fun same => noReturn (same ▸ List.mem_cons_self),
            fun same => noNewline (same ▸ List.mem_cons_self)⟩

/-- The first line is read, and the others are left. -/
theorem getline_terminated {ending : Text} (known : ending ∈ lineEndings) {line : Text}
    {lines : List Text} (oneLine : forall other, other ∈ line :: lines -> OneLine other) :
    getline (terminated ending (line :: lines)) =
      some (expandTabs true [] line, terminated ending lines) := by
  rw [getline, terminated, List.flatMap_cons, List.append_assoc]
  rcases getlineFrom_append (oneLine line List.mem_cons_self) true [] (ending ++ terminated ending lines)
    with ⟨initialToo, reading⟩
  apply Eq.trans reading
  apply getlineFrom_ending known
  apply follows_terminated known
  intro other listed
  exact oneLine other (List.mem_cons_of_mem line listed)

theorem documentLines_of_none {input : Text} (got : getline input = none) :
    documentLines input = [] := by
  rw [documentLines]
  split
  · rfl
  · rename_i found
    rw [got] at found
    cases found

theorem documentLines_of_some {input line rest : Text} (got : getline input = some (line, rest)) :
    documentLines input = line :: documentLines rest := by
  rw [documentLines]
  split
  · rename_i found
    rw [got] at found
    cases found
  · rename_i found
    rw [got] at found
    cases found
    rfl

/-- What is read are the lines, each with its tabs expanded. -/
theorem documentLines_terminated {ending : Text} (known : ending ∈ lineEndings) {lines : List Text}
    (oneLine : forall line, line ∈ lines -> OneLine line) :
    documentLines (terminated ending lines) = lines.map (expandTabs true []) := by
  induction lines with
  | nil => exact documentLines_of_none getline_nil
  | cons line lines inductionHypothesis =>
      rw [documentLines_of_some (getline_terminated known oneLine), List.map_cons,
        inductionHypothesis (fun other listed => oneLine other (List.mem_cons_of_mem line listed))]

/-- The page does not depend on the way in which the lines end. -/
theorem convert_lineEndings {ending other : Text} (known : ending ∈ lineEndings)
    (otherKnown : other ∈ lineEndings) {lines : List Text}
    (oneLine : forall line, line ∈ lines -> OneLine line) (rounds : Nat) :
    convert rounds (terminated ending lines) = convert rounds (terminated other lines) := by
  have sameTokens : read (terminated ending lines) = read (terminated other lines) := by
    rw [read, documentLines_terminated known oneLine, read, documentLines_terminated otherKnown oneLine]
  rw [convert, sameTokens, convert]

/-- A form's text with a heading and a paragraph. -/
theorem convert_lineEndings_form :
    convert 9 (terminated ['\r', '\n'] ["# A".toList, [], "b c".toList]) =
      convert 9 (terminated ['\n'] ["# A".toList, [], "b c".toList]) :=
  convert_lineEndings (by decide) (by decide) (by
    intro line listed
    simp only [List.mem_cons, List.not_mem_nil, or_false] at listed
    rcases listed with rfl | rfl | rfl
    · exact ⟨by decide, by decide⟩
    · exact ⟨by decide, by decide⟩
    · exact ⟨by decide, by decide⟩) 9

end Markdown
end Webserver
