import Mathlib.Algebra.Order.Field.Rat
import Mathlib.Data.Rat.Cast.Defs
import Mathlib.Tactic.FieldSimp
import Mathlib.Tactic.Ring
import Webserver.Library.Decimals

namespace Webserver

/-!
# Decimal notation

A decimal numeral has a sign, digits in front of the point and digits behind it.
Several numerals have the same value: a fraction can be lengthened by zeros, and
zero can have a sign.  The shortest numeral of a value is known from the value.
-/

/-- The value of digits. -/
def digitsValue (digits : List Char) : Nat := Nat.ofDigitChars 10 digits 0

def AreDigits (text : List Char) : Prop := forall c, c ∈ text -> c.isDigit = true

/-- Digits without a superfluous zero in front. -/
def IsInteger (text : List Char) : Prop :=
  text ≠ [] ∧ AreDigits text ∧ (text.head? = some '0' -> text = ['0'])

structure Decimal where
  negative : Bool
  integer : List Char
  fraction : List Char
  isInteger : IsInteger integer
  areDigits : AreDigits fraction

/-! ## Values of digits -/

theorem digitsValue_append (first second : List Char) :
    digitsValue (first ++ second) = digitsValue first * 10 ^ second.length + digitsValue second := by
  rw [digitsValue, Nat.ofDigitChars_append, Nat.ofDigitChars_eq_ofDigitChars_zero, Nat.mul_comm]
  rfl

theorem digitsValue_digit {n : Nat} (small : n < 10) : digitsValue [Nat.digitChar n] = n := by
  rw [digitsValue, Nat.ofDigitChars_cons_digitChar_of_lt_ten small, Nat.ofDigitChars_nil,
    Nat.mul_zero, Nat.zero_add]

theorem digitsValue_lt {digits : List Char} (digital : AreDigits digits) :
    digitsValue digits < 10 ^ digits.length := by
  induction digits using List.reverseRecOn with
  | nil => exact Nat.one_pos
  | append_singleton front last inductionHypothesis =>
      have before := inductionHypothesis (fun c member => digital c (List.mem_append_left _ member))
      rcases CInt.digitChar_of_isDigit (digital last (by simp)) with ⟨n, small, rfl⟩
      rw [digitsValue_append, digitsValue_digit small, List.length_append, List.length_singleton, pow_one, pow_succ]
      omega

/-- Digits without a superfluous zero are known from their value. -/
theorem IsInteger.toDigits_digitsValue {text : List Char} (integer : IsInteger text) :
    Nat.toDigits 10 (digitsValue text) = text := by
  by_cases zero : text.head? = some '0'
  · rw [integer.2.2 zero]
    rfl
  · exact CInt.toDigits_ofDigitChars integer.2.1 integer.1 zero

/-- Digits of one length are known from their value. -/
theorem AreDigits.eq_of_digitsValue {first second : List Char} (digital : AreDigits first)
    (digital' : AreDigits second) (long : first.length = second.length)
    (same : digitsValue first = digitsValue second) : first = second := by
  have behindOne : forall digits : List Char, AreDigits digits -> IsInteger ('1' :: digits) := by
    intro digits digital
    refine ⟨List.cons_ne_nil _ _, ?_, ?_⟩
    · intro c member
      rcases List.mem_cons.mp member with rfl | later
      · rfl
      · exact digital c later
    · intro zero
      exact absurd (Option.some.inj zero) (by decide)
  have valueIs : forall digits : List Char,
      digitsValue ('1' :: digits) = 1 * 10 ^ digits.length + digitsValue digits :=
    fun digits => digitsValue_append ['1'] digits
  have whole := (behindOne first digital).toDigits_digitsValue
  rw [valueIs, long, same, ← valueIs, (behindOne second digital').toDigits_digitsValue] at whole
  exact (List.cons.inj whole).2.symm

/-- The last digit is seen in the value. -/
theorem digitsValue_concat_mod {digits : List Char} {last : Char} (digit : last.isDigit = true) :
    digitsValue (digits ++ [last]) % 10 = 0 ↔ last = '0' := by
  rcases CInt.digitChar_of_isDigit digit with ⟨n, small, rfl⟩
  have zero : forall n, n < 10 -> (Nat.digitChar n = '0' ↔ n = 0) := by decide
  rw [digitsValue_append, digitsValue_digit small, List.length_singleton, pow_one, zero n small]
  omega

namespace Decimal

def toText (numeral : Decimal) : List Char :=
  (if numeral.negative then ['-'] else []) ++
    (numeral.integer ++ (if numeral.fraction = [] then [] else '.' :: numeral.fraction))

def digits (numeral : Decimal) : List Char := numeral.integer ++ numeral.fraction

/-- The number without the point. -/
def mantissa (numeral : Decimal) : Int :=
  if numeral.negative then -(digitsValue numeral.digits : Int) else digitsValue numeral.digits

def value (numeral : Decimal) : Rat := numeral.mantissa / 10 ^ numeral.fraction.length

/-- No zero is written that the value does not need, and zero has no sign. -/
def Shortest (numeral : Decimal) : Prop :=
  numeral.fraction.getLast? ≠ some '0' ∧ (numeral.negative = true -> numeral.mantissa ≠ 0)

/-! ## Shortest numerals -/

theorem natAbs_mantissa (numeral : Decimal) :
    numeral.mantissa.natAbs = digitsValue numeral.digits := by
  rw [mantissa]
  split <;> simp

theorem mantissa_of_value_eq {first second : Decimal} (same : first.value = second.value) :
    first.mantissa * 10 ^ second.fraction.length = second.mantissa * 10 ^ first.fraction.length := by
  have positive : forall n : Nat, (10 : Rat) ^ n ≠ 0 := fun n => pow_ne_zero n (by norm_num)
  rw [value, value, div_eq_div_iff (positive _) (positive _)] at same
  exact_mod_cast same

/-- A shortest numeral has no more places than another one of its value. -/
theorem Shortest.places_le {first second : Decimal} (shortest : second.Shortest)
    (same : first.value = second.value) : second.fraction.length ≤ first.fraction.length := by
  by_contra longer
  have factored := mantissa_of_value_eq same
  rcases Nat.exists_eq_add_of_lt (Nat.lt_of_not_le longer) with ⟨more, long⟩
  rw [long, pow_succ, pow_add] at factored
  have positive : (10 : Int) ^ first.fraction.length ≠ 0 := pow_ne_zero _ (by norm_num)
  have multiple : second.mantissa = first.mantissa * 10 ^ more * 10 := by
    apply mul_right_cancel₀ positive
    rw [← factored]
    ring
  -- So the value of the digits ends in zero, and the fraction does.
  have ends : digitsValue second.digits % 10 = 0 := by
    rw [← natAbs_mantissa]
    omega
  rcases List.eq_nil_or_concat second.fraction with empty | ⟨front, last, whole⟩
  · rw [empty] at long
    simp at long
  · rw [List.concat_eq_append] at whole
    have digit := second.areDigits last (by rw [whole]; simp)
    rw [digits, whole, ← List.append_assoc, digitsValue_concat_mod digit] at ends
    exact shortest.1 (by rw [whole, List.getLast?_concat, ends])

theorem Shortest.negative_iff {numeral : Decimal} (shortest : numeral.Shortest) :
    numeral.negative = true ↔ numeral.mantissa < 0 := by
  have nonzero := shortest.2
  rw [mantissa] at nonzero ⊢
  cases sign : numeral.negative with
  | true =>
      have different := nonzero sign
      rw [if_pos sign] at different
      rw [if_pos rfl]
      exact ⟨fun _ => by omega, fun _ => rfl⟩
  | false =>
      rw [if_neg (by simp)]
      constructor
      · intro impossible
        cases impossible
      · intro less
        omega

/-- The shortest numeral of a value is known from the value. -/
theorem eq_of_value_eq {first second : Decimal} (shortest : first.Shortest)
    (shortest' : second.Shortest) (same : first.value = second.value) : first = second := by
  have places : first.fraction.length = second.fraction.length :=
    Nat.le_antisymm (shortest.places_le same.symm) (shortest'.places_le same)
  have sameMantissa : first.mantissa = second.mantissa := by
    have factored := mantissa_of_value_eq same
    rw [places] at factored
    exact mul_right_cancel₀ (pow_ne_zero _ (by norm_num)) factored
  have sameDigits : digitsValue first.digits = digitsValue second.digits := by
    rw [← natAbs_mantissa, ← natAbs_mantissa, sameMantissa]
  have sign : first.negative = second.negative := by
    rw [Bool.eq_iff_iff, shortest.negative_iff, shortest'.negative_iff, sameMantissa]
  rw [digits, digits, digitsValue_append, digitsValue_append, places] at sameDigits
  have small := digitsValue_lt first.areDigits
  have small' := digitsValue_lt second.areDigits
  rw [places] at small
  have positive : 0 < 10 ^ second.fraction.length := Nat.pow_pos (by decide)
  have sameInteger : digitsValue first.integer = digitsValue second.integer := by
    have divided := congrArg (· / 10 ^ second.fraction.length) sameDigits
    simpa [Nat.mul_comm _ (10 ^ _), Nat.mul_add_div positive, Nat.div_eq_of_lt small,
      Nat.div_eq_of_lt small'] using divided
  have integers : first.integer = second.integer := by
    rw [← first.isInteger.toDigits_digitsValue, sameInteger,
      second.isInteger.toDigits_digitsValue]
  have fractions : first.fraction = second.fraction := by
    apply first.areDigits.eq_of_digitsValue second.areDigits places
    rw [sameInteger] at sameDigits
    omega
  cases first
  cases second
  cases sign
  cases integers
  cases fractions
  rfl

/-- A numeral consists of digits, the sign and the point. -/
theorem mem_toText {numeral : Decimal} {c : Char} (member : c ∈ numeral.toText) :
    c.isDigit = true ∨ c = '-' ∨ c = '.' := by
  rw [toText, List.mem_append, List.mem_append] at member
  rcases member with sign | integer | fraction
  · split at sign
    · exact Or.inr (Or.inl (List.mem_singleton.mp sign))
    · cases sign
  · exact Or.inl (numeral.isInteger.2.1 c integer)
  · split at fraction
    · cases fraction
    · rcases List.mem_cons.mp fraction with point | digit
      · exact Or.inr (Or.inr point)
      · exact Or.inl (numeral.areDigits c digit)

/-- A numeral begins with a digit or the sign. -/
theorem head?_toText {numeral : Decimal} {c : Char} (begins : numeral.toText.head? = some c) :
    c.isDigit = true ∨ c = '-' := by
  rw [toText] at begins
  split at begins
  · exact Or.inr (Option.some.inj begins).symm
  · rw [List.nil_append, List.head?_append_of_ne_nil _ numeral.isInteger.1] at begins
    exact Or.inl (numeral.isInteger.2.1 c (List.mem_of_head? begins))

end Decimal
end Webserver
