import Mathlib.Data.List.Forall2
import Mathlib.Tactic.NormNum
import Webserver.Library.Numerals
import Webserver.Library.Totals

namespace Webserver

/-!
# JSON texts

The grammar of JSON, as a relation between values and the texts that spell them.
A number is a rational number, whichever way it is spelled.  A string is the bytes
of its content, so an escaped code point stands for its UTF-8 encoding; half a
surrogate pair has no content.

A value can stand for a text: a string for its content, and a number for its
shortest decimal notation.  Quotation marks cannot be smuggled into an array by
the texts themselves: a string spells each mark and each backslash of its content
with a backslash, and its own two marks must come from somewhere.
-/

inductive Json where
  | null
  | boolean (value : Bool)
  | number (value : Rat)
  | string (content : List Char)
  | array (elements : List Json)
  | object (members : List (List Char × Json))

namespace Json

/-! ## The grammar -/

def Blank (text : List Char) : Prop :=
  forall c, c ∈ text -> c = ' ' ∨ c = '\t' ∨ c = '\n' ∨ c = '\r'

/-- An exponent, or none, and the power of ten that it stands for. -/
def SpellsExponent (power : Int) (text : List Char) : Prop :=
  (text = [] ∧ power = 0) ∨ Exists fun mark : Char => Exists fun sign : List Char =>
    Exists fun digits : List Char => text = mark :: (sign ++ digits) ∧
      (mark = 'e' ∨ mark = 'E') ∧ digits ≠ [] ∧ AreDigits digits ∧
      (((sign = [] ∨ sign = ['+']) ∧ power = digitsValue digits) ∨
        (sign = ['-'] ∧ power = -digitsValue digits))

def SpellsNumber (value : Rat) (text : List Char) : Prop :=
  Exists fun numeral : Decimal => Exists fun power : Int => Exists fun exponent : List Char =>
    text = numeral.toText ++ exponent ∧ SpellsExponent power exponent ∧
      value = numeral.value * 10 ^ power

/-- The characters with an escape of two characters. -/
def escaped : Char -> Option Char
  | '"' => some '"'
  | '\\' => some '\\'
  | '/' => some '/'
  | 'b' => some '\x08'
  | 'f' => some '\x0c'
  | 'n' => some '\n'
  | 'r' => some '\r'
  | 't' => some '\t'
  | _ => none

def hexDigit (c : Char) : Option Nat :=
  if c.isDigit then some (c.toNat - '0'.toNat)
  else if 'a' ≤ c ∧ c ≤ 'f' then some (c.toNat - 'a'.toNat + 10)
  else if 'A' ≤ c ∧ c ≤ 'F' then some (c.toNat - 'A'.toNat + 10)
  else none

/-- The number that four hexadecimal digits stand for. -/
def hexCode (first second third fourth : Char) : Option Nat := do
  let first <- hexDigit first
  let second <- hexDigit second
  let third <- hexDigit third
  let fourth <- hexDigit fourth
  return ((first * 16 + second) * 16 + third) * 16 + fourth

/-- The bytes of a code point. -/
def bytes (code : Nat) : List Char :=
  (String.utf8EncodeChar (Char.ofNat code)).map (fun byte => Char.ofNat byte.toNat)

/-- The content of a string and its spelling between the quotation marks. -/
inductive SpellsContent : List Char -> List Char -> Prop where
  | nil : SpellsContent [] []
  | plain {c : Char} {content text : List Char} (visible : 32 ≤ c.toNat) (notQuote : c ≠ '"')
      (notEscape : c ≠ '\\') (rest : SpellsContent content text) :
      SpellsContent (c :: content) (c :: text)
  | escape {letter c : Char} {content text : List Char} (short : escaped letter = some c)
      (rest : SpellsContent content text) :
      SpellsContent (c :: content) ('\\' :: letter :: text)
  | unicode {first second third fourth : Char} {code : Nat} {content text : List Char}
      (hex : hexCode first second third fourth = some code)
      (whole : code < 0xd800 ∨ 0xdfff < code) (rest : SpellsContent content text) :
      SpellsContent (bytes code ++ content)
        ('\\' :: 'u' :: first :: second :: third :: fourth :: text)
  | surrogates {first second third fourth fifth sixth seventh eighth : Char} {high low : Nat}
      {content text : List Char} (hexHigh : hexCode first second third fourth = some high)
      (hexLow : hexCode fifth sixth seventh eighth = some low)
      (isHigh : 0xd800 ≤ high ∧ high ≤ 0xdbff) (isLow : 0xdc00 ≤ low ∧ low ≤ 0xdfff)
      (rest : SpellsContent content text) :
      SpellsContent (bytes (0x10000 + (high - 0xd800) * 0x400 + (low - 0xdc00)) ++ content)
        ('\\' :: 'u' :: first :: second :: third :: fourth ::
          '\\' :: 'u' :: fifth :: sixth :: seventh :: eighth :: text)

mutual

/-- A value and a text that spells it, without blanks around it. -/
inductive Spells : Json -> List Char -> Prop where
  | null : Spells .null "null".toList
  | true : Spells (.boolean true) "true".toList
  | false : Spells (.boolean false) "false".toList
  | number {value : Rat} {text : List Char} (valid : SpellsNumber value text) :
      Spells (.number value) text
  | string {content text : List Char} (inner : SpellsContent content text) :
      Spells (.string content) ('"' :: (text ++ ['"']))
  | noElements {blank : List Char} (isBlank : Blank blank) :
      Spells (.array []) ('[' :: (blank ++ [']']))
  | array {values : List Json} {text : List Char} (inner : Elements values text) :
      Spells (.array values) ('[' :: (text ++ [']']))
  | noMembers {blank : List Char} (isBlank : Blank blank) :
      Spells (.object []) ('\x7b' :: (blank ++ ['\x7d']))
  | object {members : List (List Char × Json)} {text : List Char} (inner : Members members text) :
      Spells (.object members) ('\x7b' :: (text ++ ['\x7d']))

/-- One element or more, with commas between them. -/
inductive Elements : List Json -> List Char -> Prop where
  | last {value : Json} {before text after : List Char} (isBlank : Blank before)
      (spelled : Spells value text) (isBlank' : Blank after) :
      Elements [value] (before ++ (text ++ after))
  | more {value : Json} {values : List Json} {before text after others : List Char}
      (isBlank : Blank before) (spelled : Spells value text) (isBlank' : Blank after)
      (rest : Elements values others) :
      Elements (value :: values) (before ++ (text ++ (after ++ ',' :: others)))

inductive Members : List (List Char × Json) -> List Char -> Prop where
  | last {name : List Char} {value : Json} {before key between text after : List Char}
      (isBlank : Blank before) (named : SpellsContent name key) (isBlank' : Blank between)
      (spelled : Elements [value] text) :
      Members [(name, value)] (before ++ ('"' :: (key ++ '"' :: (between ++ ':' :: text))))
  | more {name : List Char} {value : Json} {members : List (List Char × Json)}
      {before key between text others : List Char}
      (isBlank : Blank before) (named : SpellsContent name key) (isBlank' : Blank between)
      (spelled : Elements [value] text) (rest : Members members others) :
      Members ((name, value) :: members)
        (before ++ ('"' :: (key ++ '"' :: (between ++ ':' :: (text ++ ',' :: others)))))

end

/-- A whole text: a value, with blanks around it. -/
def IsText (value : Json) (text : List Char) : Prop :=
  Exists fun before : List Char => Exists fun core : List Char => Exists fun after : List Char =>
    text = before ++ (core ++ after) ∧ Blank before ∧ Spells value core ∧ Blank after

/-! ## What a value stands for -/

/-- The shortest decimal notation of a number. -/
def IsNumeral (text : List Char) : Prop :=
  Exists fun numeral : Decimal => numeral.Shortest ∧ numeral.toText = text

/-- The value stands for the text. -/
def Denotes : Json -> List Char -> Prop
  | number value, text => Exists fun numeral : Decimal =>
      numeral.Shortest ∧ numeral.value = value ∧ numeral.toText = text
  | string content, text => content = text
  | _, _ => False

/-- A value stands for one text at most. -/
theorem Denotes.unique {value : Json} {first second : List Char} (denotes : value.Denotes first)
    (denotes' : value.Denotes second) : first = second := by
  cases value with
  | number value =>
      rcases denotes with ⟨numeral, shortest, same, rfl⟩
      rcases denotes' with ⟨numeral', shortest', same', rfl⟩
      rw [Decimal.eq_of_value_eq shortest shortest' (same.trans same'.symm)]
  | string content => exact denotes.symm.trans denotes'
  | null => exact denotes.elim
  | boolean => exact denotes.elim
  | array => exact denotes.elim
  | object => exact denotes.elim

/-- A numeral spells the number that stands for it. -/
theorem IsNumeral.spelled {text : List Char} (numeral : IsNumeral text) :
    Exists fun value : Json => value.Denotes text ∧ Spells value text := by
  rcases numeral with ⟨numeral, shortest, rfl⟩
  refine ⟨.number numeral.value, ⟨numeral, shortest, rfl, rfl⟩, .number ⟨numeral, 0, [], ?_, ?_, ?_⟩⟩
  · exact (List.append_nil _).symm
  · exact Or.inl ⟨rfl, rfl⟩
  · rw [zpow_zero, mul_one]

/-! ## Quotation marks and backslashes -/

/-- The marks and backslashes of a text, each of which a string spells with a
backslash. -/
def marks (text : List Char) : Nat := text.count '"' + text.count '\\'

theorem marks_append (first second : List Char) :
    marks (first ++ second) = marks first + marks second := by
  rw [marks, marks, marks, List.count_append, List.count_append]
  omega

theorem IsNumeral.marks_eq {text : List Char} (numeral : IsNumeral text) : marks text = 0 := by
  rcases numeral with ⟨numeral, _, rfl⟩
  have absent : forall c, c.isDigit = false -> c ≠ '-' -> c ≠ '.' -> c ∉ numeral.toText := by
    intro c notDigit notSign notPoint member
    rcases Decimal.mem_toText member with digit | sign | point
    · rw [notDigit] at digit
      cases digit
    · exact notSign sign
    · exact notPoint point
  rw [marks, List.count_eq_zero_of_not_mem (absent '"' (by decide) (by decide) (by decide)),
    List.count_eq_zero_of_not_mem (absent '\\' (by decide) (by decide) (by decide))]

/-- There is neither beyond ASCII. -/
theorem marks_of_high {bytes : List UInt8} (high : forall byte, byte ∈ bytes -> 128 ≤ byte.toNat) :
    marks (bytes.map (fun byte => Char.ofNat byte.toNat)) = 0 := by
  have absent : forall c : Char, c.toNat < 128 ->
      c ∉ bytes.map (fun byte => Char.ofNat byte.toNat) := by
    intro c small member
    rcases List.mem_map.mp member with ⟨byte, inside, rfl⟩
    have large := high byte inside
    have valid : byte.toNat.isValidChar := Or.inl (Nat.lt_trans byte.toNat_lt (by decide))
    have code : (Char.ofNat byte.toNat).toNat = byte.toNat := by
      rw [Char.ofNat, dif_pos valid]
      rfl
    omega
  rw [marks, List.count_eq_zero_of_not_mem (absent '"' (by decide)),
    List.count_eq_zero_of_not_mem (absent '\\' (by decide))]

/-- A code point has one mark or backslash at most. -/
theorem marks_bytes_le (code : Nat) : marks (bytes code) ≤ 1 := by
  rw [bytes, String.utf8EncodeChar]
  generalize (Char.ofNat code).val.toNat = v
  split
  · rw [List.map_singleton, marks, List.count_singleton, List.count_singleton]
    split <;> split <;> simp_all
  -- Otherwise each byte has its highest bit set.
  · rw [marks_of_high]
    · exact Nat.zero_le 1
    · intro byte member
      split at member
      · simp only [List.mem_cons, List.not_mem_nil, or_false] at member
        rcases member with rfl | rfl <;> rw [UInt8.toNat_ofNat'] <;> omega
      · split at member
        · simp only [List.mem_cons, List.not_mem_nil, or_false] at member
          rcases member with rfl | rfl | rfl <;> rw [UInt8.toNat_ofNat'] <;> omega
        · simp only [List.mem_cons, List.not_mem_nil, or_false] at member
          rcases member with rfl | rfl | rfl | rfl <;> rw [UInt8.toNat_ofNat'] <;> omega

/-- Each mark and each backslash of the content is spelled with a backslash. -/
theorem SpellsContent.marks_le {content text : List Char} (spelled : SpellsContent content text) :
    marks content ≤ text.count '\\' := by
  induction spelled with
  | nil => exact Nat.le_refl _
  | @plain c content text visible notQuote notEscape rest inductionHypothesis =>
      rw [marks, List.count_cons_of_ne notQuote, List.count_cons_of_ne notEscape,
        List.count_cons_of_ne notEscape]
      exact inductionHypothesis
  | @escape letter c content text short rest inductionHypothesis =>
      have one : marks [c] ≤ 1 := by
        rw [marks, List.count_singleton, List.count_singleton]
        split <;> split <;> simp_all
      have split_ := marks_append [c] content
      rw [List.singleton_append] at split_
      rw [split_, List.count_cons_self]
      have more := List.count_le_count_cons (a := '\\') (b := letter) (l := text)
      omega
  | @unicode first second third fourth code content text _ _ _ inductionHypothesis =>
      have one := marks_bytes_le code
      rw [marks_append, List.count_cons_self]
      have more : text.count '\\' ≤ ('u' :: first :: second :: third :: fourth :: text).count '\\' :=
        (List.suffix_append ['u', first, second, third, fourth] text).sublist.count_le _
      omega
  | @surrogates first second third fourth fifth sixth seventh eighth high low content text _ _ _ _ _
      inductionHypothesis =>
      have one := marks_bytes_le (0x10000 + (high - 0xd800) * 0x400 + (low - 0xdc00))
      rw [marks_append, List.count_cons_self]
      have more : text.count '\\' ≤ ('u' :: first :: second :: third :: fourth ::
          '\\' :: 'u' :: fifth :: sixth :: seventh :: eighth :: text).count '\\' :=
        (List.suffix_append ['u', first, second, third, fourth, '\\', 'u', fifth, sixth, seventh,
          eighth] text).sublist.count_le _
      omega

/-- A value is spelled with as many backslashes as what it stands for has marks and
backslashes. -/
theorem Spells.marks_le {value : Json} {text id : List Char} (spelled : Spells value text)
    (denotes : value.Denotes id) : marks id ≤ text.count '\\' := by
  cases spelled with
  | number =>
      rcases denotes with ⟨numeral, shortest, _, named⟩
      rw [IsNumeral.marks_eq ⟨numeral, shortest, named⟩]
      exact Nat.zero_le _
  | @string content text inner =>
      obtain rfl : content = id := denotes
      have enough := inner.marks_le
      rw [List.count_cons_of_ne (by decide), List.count_append]
      omega
  | null => exact denotes.elim
  | true => exact denotes.elim
  | false => exact denotes.elim
  | noElements => exact denotes.elim
  | array => exact denotes.elim
  | noMembers => exact denotes.elim
  | object => exact denotes.elim

/-- Without quotation marks a value stands for a numeral. -/
theorem Spells.isNumeral {value : Json} {text id : List Char} (spelled : Spells value text)
    (denotes : value.Denotes id) (unquoted : '"' ∉ text) : IsNumeral id := by
  cases spelled with
  | number =>
      rcases denotes with ⟨numeral, shortest, _, named⟩
      exact ⟨numeral, shortest, named⟩
  | string => exact absurd List.mem_cons_self unquoted
  | null => exact denotes.elim
  | true => exact denotes.elim
  | false => exact denotes.elim
  | noElements => exact denotes.elim
  | array => exact denotes.elim
  | noMembers => exact denotes.elim
  | object => exact denotes.elim

/-! ## Arrays of texts -/

/-- The elements of an array have as many backslashes as what they stand for has
marks and backslashes. -/
theorem Elements.marks_le {values : List Json} {ids : List (List Char)} {text : List Char}
    (spelled : Elements values text) (denote : List.Forall₂ Denotes values ids) :
    total marks ids ≤ text.count '\\' := by
  induction values generalizing ids text with
  | nil => cases spelled
  | cons value values inductionHypothesis =>
      rcases List.forall₂_cons_left_iff.mp denote with ⟨id, others, here, later, rfl⟩
      rw [total]
      cases spelled with
      | last _ spelled _ =>
          obtain rfl := List.forall₂_nil_left_iff.mp later
          have enough := spelled.marks_le here
          simp only [total, List.count_append]
          omega
      | more _ spelled _ rest =>
          have enough := spelled.marks_le here
          have others := inductionHypothesis rest later
          have comma : (',' == '\\') = false := by decide
          simp only [List.count_append, List.count_cons, comma]
          omega

theorem Elements.areNumerals {values : List Json} {ids : List (List Char)} {text : List Char}
    (spelled : Elements values text) (denote : List.Forall₂ Denotes values ids)
    (unquoted : '"' ∉ text) : forall id, id ∈ ids -> IsNumeral id := by
  induction values generalizing ids text with
  | nil => cases spelled
  | cons value values inductionHypothesis =>
      rcases List.forall₂_cons_left_iff.mp denote with ⟨id, others, here, later, rfl⟩
      intro other member
      cases spelled with
      | last _ spelled _ =>
          obtain rfl := List.forall₂_nil_left_iff.mp later
          rw [List.mem_singleton.mp member]
          exact spelled.isNumeral here (fun inside => unquoted (by simp [inside]))
      | more _ spelled _ rest =>
          rcases List.mem_cons.mp member with rfl | inside
          · exact spelled.isNumeral here (fun inside => unquoted (by simp [inside]))
          · exact inductionHypothesis rest later (fun inside => unquoted (by simp [inside])) other inside

/-- An array has its brackets. -/
theorem IsText.ne_nil {values : List Json} {text : List Char}
    (valid : IsText (.array values) text) : text ≠ [] := by
  rintro rfl
  rcases valid with ⟨before, core, after, whole, _, spelled, _⟩
  have inside := (List.append_eq_nil_iff.mp whole.symm).2
  obtain rfl : core = [] := (List.append_eq_nil_iff.mp inside).1
  cases spelled

/-- The elements stand for numerals if the text of the array has no backslash for a
quotation mark in them. -/
theorem IsText.areNumerals {values : List Json} {ids : List (List Char)} {text : List Char}
    (valid : IsText (.array values) text) (denote : List.Forall₂ Denotes values ids)
    (few : text.count '\\' ≤ total (List.count '\\') ids)
    (own : '"' ∈ text -> Exists fun id : List Char => id ∈ ids ∧ '"' ∈ id) :
    forall id, id ∈ ids -> IsNumeral id := by
  rcases valid with ⟨before, core, after, rfl, _, spelled, _⟩
  cases spelled with
  | noElements =>
      rw [List.forall₂_nil_left_iff.mp denote]
      simp
  | array inner =>
      apply inner.areNumerals denote
      intro quoted
      rcases own (by simp [quoted]) with ⟨id, member, inside⟩
      have enough := inner.marks_le denote
      have more : total (List.count '\\') ids < total marks ids := by
        apply total_lt (fun other => Nat.le_add_left _ _) member
        exact Nat.lt_add_of_pos_left (List.count_pos_iff.mpr inside)
      simp only [List.count_append, List.count_cons] at few
      omega

/-- Numerals, each followed by a comma, are elements once the last comma is taken
away. -/
theorem elements_numerals {ids : List (List Char)} (present : ids ≠ [])
    (numerals : forall id, id ∈ ids -> IsNumeral id) :
    Exists fun values : List Json => List.Forall₂ Denotes values ids ∧
      Elements values ((ids.flatMap (fun id => id ++ [','])).dropLast) := by
  have blank : Blank [] := fun c member => absurd member List.not_mem_nil
  induction ids with
  | nil => exact absurd rfl present
  | cons id others inductionHypothesis =>
      rcases (numerals id List.mem_cons_self).spelled with ⟨value, denotes, here⟩
      rw [List.flatMap_cons]
      by_cases only : others = []
      · subst only
        have one := Elements.last blank here blank
        exact ⟨[value], .cons denotes .nil, by simpa using one⟩
      · rcases inductionHypothesis only
          (fun other member => numerals other (List.mem_cons_of_mem id member)) with
          ⟨values, denote, rest⟩
        have all := Elements.more blank here blank rest
        have nonempty : others.flatMap (fun id => id ++ [',']) ≠ [] := by
          intro empty
          rcases List.exists_mem_of_ne_nil others only with ⟨other, member⟩
          have blankEach := List.flatMap_eq_nil_iff.mp empty other member
          simp at blankEach
        rw [List.dropLast_append_of_ne_nil nonempty, List.append_assoc]
        exact ⟨value :: values, .cons denotes denote, by simpa using all⟩

end Json
end Webserver
