import Webserver.Config.Comments
import Webserver.Config.ExtractPort

namespace Webserver
namespace Config

/-!
# Comments and `ExtractPort`

The scan for the port does not know comments.  It finds a number that is commented out
when this comes first, and it does not find one that a comment separates from its
keyword.  Where neither happens the comments make no difference.
-/

/-- The first number behind a keyword stands outside the comments, and no keyword before it
has its number behind a comment. -/
def PortsOutside : List Marked -> Prop
  | [] => True
  | ⟨c, inComment⟩ :: rest =>
      match statedPort (c :: full rest) with
      | some _ => inComment = false
      | none => (inComment = true ∨ statedPort (c :: bare rest) = none) ∧ PortsOutside rest

instance decidablePortsOutside : forall signs : List Marked, Decidable (PortsOutside signs)
  | [] => isTrue trivial
  | ⟨c, inComment⟩ :: rest => by
      have onward := decidablePortsOutside rest
      unfold PortsOutside
      cases statedPort (c :: full rest) <;> infer_instance

theorem separates_alphanum {c : Char} (alphanum : c.isAlphanum = true) : separates c = false := by
  by_contra separated
  simp only [separates, isBlank, Bool.not_eq_false, Bool.or_eq_true, beq_iff_eq] at separated
  rcases separated with ((((((rfl | rfl) | rfl) | rfl) | rfl) | rfl)) | rfl <;> cases alphanum

theorem separates_digit {c : Char} (digit : c.isDigit = true) : separates c = false := by
  apply separates_alphanum
  rw [Char.isAlphanum, digit, Bool.or_true]

/-- A number that is stated outside the comments is stated without them. -/
theorem statedPort_bare {c : Char} {rest : List Marked} {digits : Text}
    (delimited : Delimited (⟨c, false⟩ :: rest)) (stated : statedPort (c :: full rest) = some digits) :
    statedPort (c :: bare rest) = some digits := by
  cases isToken : portToken c with
  | none =>
      rw [statedPort_of_none isToken] at stated
      cases stated
  | some token =>
      by_cases begins : token <+: full rest
      · have noHash : '#' ∉ token := by
          rcases portToken_cases isToken with rfl | rfl <;> decide
        have outside := outside_of_code delimited
        rcases outside.code_of_word noHash begins with ⟨signs, rfl⟩
        have code : Code (markAll false token) := by
          intro sign member
          rcases List.mem_map.mp member with ⟨d, _, rfl⟩
          rfl
        replace outside := outside.behind code
        rw [full_append, full_markAll, statedPort_of_some isToken, numberBehind, dropWhile_full]
          at stated
        rw [bare_append, bare_markAll_false, statedPort_of_some isToken, numberBehind]
        split at stated
        · rename_i filled
          obtain rfl := Option.some.inj stated
          have spaceless : Code (within isspace signs) := outside.code_within rfl
          replace outside := outside.afterSpan spaceless
          rw [takeWhile_full] at filled
          have digital : Code (within Char.isDigit (beyond isspace signs)) := outside.code_within rfl
          have nonempty : within Char.isDigit (beyond isspace signs) ≠ [] := by
            intro nothing
            rw [nothing] at filled
            exact filled rfl
          -- The number begins right behind the white space, so that no comment does.
          have atNumber := atCode_of_within digital nonempty
          have atEnd := outside.atCode_of_plain digital (fun _ => separates_digit) nonempty
          rw [(spans_bare spaceless atNumber).2, (spans_bare digital atEnd).1, takeWhile_full,
            if_pos filled]
        · cases stated
      · rw [statedPort_of_other isToken begins] at stated
        cases stated

/-- The first number is the same without the comments. -/
theorem firstPort_bare {signs : List Marked} (delimited : Delimited signs) (ports : PortsOutside signs) :
    firstPort (bare signs) = firstPort (full signs) := by
  induction signs with
  | nil => rfl
  | cons sign rest inductionHypothesis =>
      rcases sign with ⟨c, inComment⟩
      rw [full_cons, firstPort]
      rw [PortsOutside] at ports
      cases stated : statedPort (c :: full rest) with
      | some digits =>
          rw [stated] at ports
          obtain rfl : inComment = false := ports
          rw [bare_code, firstPort, statedPort_bare delimited stated]
      | none =>
          rw [stated] at ports
          have onward := inductionHypothesis delimited.tail ports.2
          cases inComment with
          | true => exact onward
          | false =>
              have nothing := ports.1.resolve_left Bool.false_ne_true
              rw [bare_code, firstPort, nothing]
              exact onward

/-- With and without its comments, a text has the same port. -/
theorem extractPort_uncommented {limit : Nat} {text : Text} (ports : PortsOutside (marked text))
    (enough : text.length < limit) : extractPort limit (uncommented text) = extractPort limit text := by
  have shorter := length_bare (marked text)
  rw [full_marked] at shorter
  rw [uncommented, extractPort_eq enough, extractPort_eq (Nat.lt_of_le_of_lt shorter enough),
    firstPort_bare (delimited_marked text) ports, full_marked]

end Config
end Webserver
