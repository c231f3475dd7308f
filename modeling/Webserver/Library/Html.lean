import Webserver.Library.Strings
import Webserver.Library.Totals
import Mathlib.Data.List.Forall2

namespace Webserver
namespace Html

/-!
# Text in a page

In a text a browser takes `<` for the beginning of a tag or of a comment only where
a letter, a slash, an exclamation mark or a question mark follows.

It replaces character references such as `&lt;` by the characters that
they stand for.  Which references there are is left open; what matters is that
replacing one makes the text lighter, in the measure in which an ampersand
counts for ten.  Hence texts that weigh as much as what they are read as are
read as they are.
-/

/-! ## Tags -/

/-- The character makes a `<` in front of it begin a tag. -/
def beginsTag (c : Char) : Bool := c.isAlpha || c == '/' || c == '!' || c == '?'

/-- No tag begins in the text. -/
def tagFree : List Char -> Bool
  | [] => true
  | c :: rest => !(c == '<' && rest.head?.any beginsTag) && tagFree rest

theorem tagFree_of_tag {c : Char} (begins : beginsTag c = true) (before after : List Char) :
    tagFree (before ++ '<' :: c :: after) = false := by
  induction before with
  | nil => simp [tagFree, begins]
  | cons first rest inductionHypothesis =>
      rw [List.cons_append, tagFree, inductionHypothesis, Bool.and_false]

/-- A character that begins no tag can be put behind a text. -/
theorem tagFree_concat {c : Char} (other : beginsTag c = false) (text : List Char) :
    tagFree (text ++ [c]) = tagFree text := by
  induction text with
  | nil => simp [tagFree]
  | cons first rest inductionHypothesis =>
      rw [List.cons_append, tagFree, tagFree, inductionHypothesis]
      cases rest with
      | nil => simp [other]
      | cons second others => rfl

/-! ## Character references -/

/-- The length of a text in which an ampersand counts for ten. -/
def weight (text : List Char) : Nat := text.length + 9 * text.count '&'

/-- How a browser replaces character references in text and in attribute values.  A
reference is an ampersand with two characters or more behind it; it stands for
at most nine bytes without an ampersand, or for an ampersand alone. -/
structure CharacterReferences where
  inText : List Char -> List Char
  inAttribute : List Char -> List Char
  shrinks : forall text, inAttribute text ≠ text -> weight (inAttribute text) < weight text

/-- What a text weighs with a separator behind it. -/
def load (text : List Char) : Nat := weight text + 1

/-- Taking a text apart at its separators keeps the weight. -/
theorem total_load_splitOn {separator : Char} (notAmpersand : separator ≠ '&')
    (text : List Char) : total load (text.splitOn separator) = load text := by
  induction text using Strings.separator_induction separator with
  | last text avoids =>
      rw [List.splitOn_eq_singleton avoids]
      rfl
  | more before after avoids inductionHypothesis =>
      rw [List.splitOn_append_cons_self, total_append, inductionHypothesis,
        List.splitOn_eq_singleton avoids]
      simp only [total, load, weight, List.length_append, List.length_cons, List.count_append,
        List.count_cons_of_ne notAmpersand]
      omega

theorem total_load_fields {separator : Char} (notAmpersand : separator ≠ '&')
    (names : List (List Char)) :
    total load (names.flatMap (fun name => name.splitOn separator)) = total load names := by
  induction names with
  | nil => rfl
  | cons name rest inductionHypothesis =>
      rw [List.flatMap_cons, total_append, inductionHypothesis, total_load_splitOn notAmpersand,
        total]

/-- Values that weigh no more than what they are read as are read as they are. -/
theorem CharacterReferences.eq_of_weight (references : CharacterReferences)
    {values ids : List (List Char)}
    (read : List.Forall₂ (fun value id => references.inAttribute value = id) values ids)
    (same : total load values ≤ total load ids) : values = ids := by
  have less : forall {values ids : List (List Char)},
      List.Forall₂ (fun value id => references.inAttribute value = id) values ids ->
        total load ids ≤ total load values := by
    intro values ids read
    induction read with
    | nil => exact Nat.le_refl _
    | @cons value id values ids here _ inductionHypothesis =>
        have step : weight id ≤ weight value := by
          by_cases kept : references.inAttribute value = value
          · rw [← here, kept]
          · rw [← here]
            exact Nat.le_of_lt (references.shrinks value kept)
        simp only [total, load]
        omega
  induction read with
  | nil => rfl
  | @cons value id values ids here later inductionHypothesis =>
      have rest := less later
      simp only [total, load] at same
      by_cases kept : references.inAttribute value = value
      · obtain rfl : value = id := kept.symm.trans here
        rw [inductionHypothesis (by omega)]
      · have smaller := references.shrinks value kept
        rw [here] at smaller
        omega

end Html
end Webserver
