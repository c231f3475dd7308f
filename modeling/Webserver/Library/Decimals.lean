import Mathlib.Data.List.Induction
import Mathlib.Data.List.TakeWhile

namespace Webserver

/-!
# Character classes and 32-bit decimal numbers in the C locale

`CInt` is a 32-bit `int` with its range as fields.  `stoi` follows the standard
library: it skips leading white space, accepts one sign, reads the longest run
of digits and ignores whatever follows.  It returns `none` where the library
throws, that is, when there is no digit or the number does not fit.
`increment` returns `none` where adding one overflows.
-/

/-- `isspace` in the C locale. -/
def isspace (c : Char) : Bool :=
  c == ' ' || c == '\t' || c == '\n' || c == '\x0b' || c == '\x0c' || c == '\r'

/-- A 32-bit signed integer. -/
structure CInt where
  value : Int
  lower : -2147483648 ≤ value
  upper : value ≤ 2147483647
deriving DecidableEq

namespace CInt

theorem ext {first second : CInt} (same : first.value = second.value) : first = second := by
  cases first
  cases second
  cases same
  rfl

/-- The number as an `int`, if it is in range. -/
def ofInt (value : Int) : Option CInt :=
  if range : -2147483648 ≤ value ∧ value ≤ 2147483647 then
    some ⟨value, range.1, range.2⟩
  else none

def zero : CInt := ⟨0, by decide, by decide⟩

/-- `INT_MAX`. -/
def max : CInt := ⟨2147483647, by decide, by decide⟩

/-- `n + 1`, unless that overflows. -/
def increment (n : CInt) : Option CInt := ofInt (n.value + 1)

/-- The larger of two numbers, as `if (b > a) a = b` leaves it in `a`. -/
def larger (a b : CInt) : CInt := if a.value < b.value then b else a

theorem larger_value (a b : CInt) : (larger a b).value = Max.max a.value b.value := by
  unfold larger
  split
  · omega
  · omega

theorem ofInt_eq_some_iff (value : Int) (n : CInt) : ofInt value = some n ↔ n.value = value := by
  unfold ofInt
  split
  · rename_i range
    constructor
    · intro same
      rw [← Option.some.inj same]
    · intro same
      exact congrArg some (ext same.symm)
  · rename_i outside
    constructor
    · intro impossible
      cases impossible
    · intro same
      exact absurd ⟨same ▸ n.lower, same ▸ n.upper⟩ outside

theorem increment_eq_some_iff (n next : CInt) :
    n.increment = some next ↔ next.value = n.value + 1 :=
  ofInt_eq_some_iff _ _

/-- Adding one overflows at `INT_MAX` only. -/
theorem increment_eq_none_iff (n : CInt) : n.increment = none ↔ n.value = 2147483647 := by
  have lower := n.lower
  have upper := n.upper
  unfold increment ofInt
  split
  · constructor
    · intro impossible
      cases impossible
    · intro top
      omega
  · constructor
    · intro _
      omega
    · intro _
      rfl

/-! ## Reading and printing -/

/-- The sign and the text after it. -/
def sign : List Char -> Bool × List Char
  | '-' :: rest => (true, rest)
  | '+' :: rest => (false, rest)
  | text => (false, text)

/-- `std::stoi`; `none` where it throws. -/
def stoi (text : List Char) : Option CInt :=
  let signed := sign (text.dropWhile isspace)
  let digits := signed.2.takeWhile Char.isDigit
  if digits = [] then none
  else
    let magnitude : Int := Nat.ofDigitChars 10 digits 0
    ofInt (if signed.1 then -magnitude else magnitude)

/-- `std::to_string`. -/
def toText (n : CInt) : List Char :=
  if n.value < 0 then '-' :: Nat.toDigits 10 n.value.natAbs else Nat.toDigits 10 n.value.natAbs

theorem toText_of_nonneg {n : CInt} (nonneg : 0 ≤ n.value) :
    n.toText = Nat.toDigits 10 n.value.natAbs := by
  rw [toText, if_neg (Int.not_lt.mpr nonneg)]

theorem isDigit_of_mem_toDigits {c : Char} {n : Nat} (member : c ∈ Nat.toDigits 10 n) :
    c.isDigit = true :=
  Nat.isDigit_of_mem_toDigits (by decide) (by decide) member

private theorem isDigit_excludes {c : Char} (digit : c.isDigit = true) :
    isspace c = false ∧ c ≠ '-' ∧ c ≠ '+' ∧ c ≠ '/' ∧ c ≠ ',' ∧ c ≠ '.' := by
  refine ⟨?_, ?_, ?_, ?_, ?_, ?_⟩
  · by_contra space
    simp only [isspace, Bool.not_eq_false, Bool.or_eq_true, beq_iff_eq] at space
    rcases space with ((((rfl | rfl) | rfl) | rfl) | rfl) | rfl <;> revert digit <;> decide
  all_goals
    rintro rfl
    revert digit
    decide

theorem notMem_toDigits {c : Char} (separator : c = '/' ∨ c = ',' ∨ c = '.') (n : Nat) :
    c ∉ Nat.toDigits 10 n := by
  intro member
  have excluded := isDigit_excludes (isDigit_of_mem_toDigits member)
  rcases separator with same | same | same
  · exact excluded.2.2.2.1 same
  · exact excluded.2.2.2.2.1 same
  · exact excluded.2.2.2.2.2 same

/-- A text of digits is read as the number that it is. -/
theorem stoi_digits {digits : List Char} (nonempty : digits ≠ [])
    (digital : forall c, c ∈ digits -> c.isDigit = true) :
    stoi digits = ofInt (Nat.ofDigitChars 10 digits 0) := by
  cases digits with
  | nil => exact absurd rfl nonempty
  | cons first rest =>
      have excluded := isDigit_excludes (digital first List.mem_cons_self)
      have unsigned : sign (first :: rest) = (false, first :: rest) := by
        unfold sign
        split
        · rename_i same
          exact absurd (List.cons.inj same).1 excluded.2.1
        · rename_i same
          exact absurd (List.cons.inj same).1 excluded.2.2.1
        · rfl
      have kept : (first :: rest).dropWhile isspace = first :: rest := by
        rw [List.dropWhile_cons_of_neg (by simp [excluded.1])]
      have whole : (first :: rest).takeWhile Char.isDigit = first :: rest :=
        List.takeWhile_eq_self_iff.mpr digital
      rw [stoi, kept, unsigned]
      simp only [whole, reduceCtorEq, if_false, Bool.false_eq_true]

/-- Printing a nonnegative number and reading it back gives the number. -/
theorem stoi_toText {n : CInt} (nonneg : 0 ≤ n.value) : stoi n.toText = some n := by
  rw [toText_of_nonneg nonneg,
    stoi_digits Nat.toDigits_ne_nil (fun c member => isDigit_of_mem_toDigits member),
    Nat.ofDigitChars_toDigits (by decide) (by decide)]
  exact (ofInt_eq_some_iff _ _).mpr (Int.natAbs_of_nonneg nonneg).symm

/-- A number is known from its text. -/
theorem toText_injective {first second : CInt} (same : first.toText = second.toText) :
    first = second := by
  have noSign : forall n : Nat, Nat.toDigits 10 n ≠ [] ∧ '-' ∉ Nat.toDigits 10 n :=
    fun n => ⟨Nat.toDigits_ne_nil, fun member => absurd (isDigit_of_mem_toDigits member) (by decide)⟩
  have sameDigits : forall m n : Nat, Nat.toDigits 10 m = Nat.toDigits 10 n -> m = n := by
    intro m n digits
    rw [← Nat.ofDigitChars_toDigits (b := 10) (n := m) (by decide) (by decide), digits,
      Nat.ofDigitChars_toDigits (by decide) (by decide)]
  apply ext
  rw [toText, toText] at same
  split at same <;> split at same
  · have magnitudes := sameDigits _ _ (List.cons.inj same).2
    omega
  · exact absurd (same ▸ List.mem_cons_self) (noSign _).2
  · exact absurd (same ▸ List.mem_cons_self) (noSign _).2
  · have magnitudes := sameDigits _ _ same
    omega

/-- A digit is the numeral of its value. -/
theorem digitChar_of_isDigit {c : Char} (digit : c.isDigit = true) :
    Exists fun n : Nat => n < 10 ∧ c = Nat.digitChar n := by
  have bounds : 48 ≤ c.toNat ∧ c.toNat ≤ 57 := by
    simpa [Char.isDigit, UInt32.le_iff_toNat_le] using digit
  have known : forall n : Nat, n < 10 -> Char.ofNat (48 + n) = Nat.digitChar n := by decide
  refine ⟨c.toNat - 48, by omega, ?_⟩
  rw [← known _ (by omega), Nat.add_sub_cancel' bounds.1, Char.ofNat_toNat]

/-- A positive number has no leading zero. -/
theorem toDigits_head?_ne_zero {n : Nat} (positive : 0 < n) :
    (Nat.toDigits 10 n).head? ≠ some '0' := by
  induction n using Nat.strongRecOn with
  | ind n inductionHypothesis =>
      by_cases small : n < 10
      · rw [Nat.toDigits_of_lt_base small, List.head?_cons]
        have all : forall d, d < 10 -> 0 < d -> some (Nat.digitChar d) ≠ some '0' := by decide
        exact all n small positive
      · have shorter := inductionHypothesis (n / 10) (by omega) (by omega)
        rw [Nat.toDigits_of_base_le (by decide) (Nat.le_of_not_lt small)]
        rcases List.exists_cons_of_ne_nil (Nat.toDigits_ne_nil (n := n / 10) (b := 10)) with
          ⟨d, rest, digits⟩
        rw [digits] at shorter ⊢
        exact shorter

/-- Digits without a leading zero are the numeral of their value. -/
theorem toDigits_ofDigitChars {digits : List Char} (digital : forall c, c ∈ digits -> c.isDigit = true)
    (nonempty : digits ≠ []) (noZero : digits.head? ≠ some '0') :
    Nat.toDigits 10 (Nat.ofDigitChars 10 digits 0) = digits := by
  induction digits using List.reverseRecOn with
  | nil => exact absurd rfl nonempty
  | append_singleton front last inductionHypothesis =>
      rcases digitChar_of_isDigit (digital last (by simp)) with ⟨n, small, rfl⟩
      by_cases single : front = []
      · subst single
        rw [List.nil_append, Nat.ofDigitChars_cons_digitChar_of_lt_ten small]
        simp [Nat.toDigits_of_lt_base small]
      · have begins : front.head? ≠ some '0' := by
          cases front with
          | nil => exact absurd rfl single
          | cons d front => exact noZero
        have known := inductionHypothesis
          (fun c earlier => digital c (List.mem_append_left _ earlier)) single begins
        have positive : 0 < Nat.ofDigitChars 10 front 0 := by
          by_contra zero
          rw [Nat.eq_zero_of_not_pos zero] at known
          rw [← known] at begins
          exact begins rfl
        rw [Nat.ofDigitChars_append, Nat.ofDigitChars_cons_digitChar_of_lt_ten small,
          Nat.ofDigitChars_nil, ← Nat.toDigits_append_toDigits (by decide) positive small, known,
          Nat.toDigits_of_lt_base small]

end CInt
end Webserver
