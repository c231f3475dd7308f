import Webserver.Config.Printer

namespace Webserver
namespace Config

/-!
# Escapes in quoted tokens

A backslash escapes a quote or a backslash.  The quote states do not remember
whether a backslash has been escaped itself: each one is looked at together with
the character behind it, and a quote in front of a space, tab, newline or `;`
always ends the token.
-/

/-- A backslash before every backslash and every quote. -/
def escape (quote : Char) (text : Text) : Text :=
  text.flatMap (fun c => if c = '\\' ∨ c = quote then ['\\', c] else [c])

/-- What the quote states make of an escaped text: a backslash in front of a
backslash or a quote is lost. -/
def unescaped (quote : Char) : Text -> Text
  | [] => []
  | c :: rest =>
      if c = '\\' ∧ (rest.head? = some '\\' ∨ rest.head? = some quote) then unescaped quote rest
      else c :: unescaped quote rest

/-- No quote stands in front of a character that ends a quoted token. -/
def StaysOpen (quote : Char) (text : Text) : Prop :=
  text.IsChain (fun first second => first = quote -> endsQuoted second = false)

theorem escape_special {quote c : Char} (special : c = '\\' ∨ c = quote) (rest : Text) :
    escape quote (c :: rest) = '\\' :: c :: escape quote rest := by
  rw [escape, List.flatMap_cons, if_pos special]
  rfl

theorem escape_other {quote c : Char} (plain : ¬(c = '\\' ∨ c = quote)) (rest : Text) :
    escape quote (c :: rest) = c :: escape quote rest := by
  rw [escape, List.flatMap_cons, if_neg plain]
  rfl

theorem staysOpen_cons (quote c : Char) (rest : Text) :
    StaysOpen quote (c :: rest) <->
      (c = quote -> rest.head?.any endsQuoted = false) ∧ StaysOpen quote rest := by
  rw [StaysOpen, StaysOpen, List.isChain_cons]
  apply and_congr_left
  intro _
  cases rest with
  | nil => simp
  | cons d rest => simp

section Reading

variable {quote : Char}

/-- The first character behind an escaped one. -/
theorem escape_head (text tail : Text) :
    (escape quote text ++ quote :: tail).head? =
      match text.head? with
      | none => some quote
      | some c => some (if c = '\\' ∨ c = quote then '\\' else c) := by
  cases text with
  | nil => rfl
  | cons c rest =>
      by_cases special : c = '\\' ∨ c = quote
      · rw [escape_special special]
        simp [special]
      · rw [escape_other special]
        simp [special]

theorem escape_head_backslash (notBackslash : quote ≠ '\\') (text tail : Text) :
    (escape quote text ++ quote :: tail).head? = some '\\' <->
      (text.head? = some '\\' ∨ text.head? = some quote) := by
  rw [escape_head]
  cases text.head? with
  | none => simp [notBackslash]
  | some c =>
      by_cases special : c = '\\' ∨ c = quote
      · simp [special]
      · have plain := not_or.mp special
        simp [plain]

theorem escape_head_ends (isQuote : IsQuote quote) (text tail : Text) :
    (escape quote text ++ quote :: tail).head?.any endsQuoted = text.head?.any endsQuoted := by
  rw [escape_head]
  cases text.head? with
  | none => exact isQuote_not_ender isQuote
  | some c =>
      by_cases special : c = '\\' ∨ c = quote
      · rcases special with rfl | rfl
        · simp
        · have ender := isQuote_not_ender isQuote
          simp [ender]
          decide
      · simp [special]

theorem length_escape (text tail : Text) : tail.length ≤ (escape quote text ++ tail).length := by
  rw [List.length_append]
  omega

/-- A text that stays open is read to its closing quote, and otherwise the token
ends early. -/
theorem quotedState_escape (isQuote : IsQuote quote) (text reversed : Text) :
    (StaysOpen quote text ->
      quotedState quote reversed (escape quote text ++ [quote, ' ']) =
        (⟨.normal, reversed.reverse ++ (unescaped quote text ++ [quote])⟩, [' '])) ∧
    (¬StaysOpen quote text ->
      1 < (quotedState quote reversed (escape quote text ++ [quote, ' '])).2.length) := by
  have notBackslash := isQuote_not_backslash isQuote
  induction text generalizing reversed with
  | nil =>
      refine ⟨fun _ => ?_, fun closes => absurd .nil closes⟩
      have ends : ([' '] : Text).head?.any endsQuoted = true := rfl
      rw [escape, List.flatMap_nil, List.nil_append, quotedState_close ends]
      simp [unescaped]
  | cons c rest inductionHypothesis =>
      by_cases backslash : c = '\\'
      · subst backslash
        have open_iff : StaysOpen quote ('\\' :: rest) <-> StaysOpen quote rest := by
          rw [staysOpen_cons]
          exact ⟨fun both => both.2, fun later => ⟨fun same => absurd same.symm notBackslash, later⟩⟩
        have first : quotedState quote reversed (escape quote ('\\' :: rest) ++ [quote, ' ']) =
            quotedState quote reversed ('\\' :: (escape quote rest ++ [quote, ' '])) := by
          rw [escape_special (Or.inl rfl)]
          exact quotedState_pair (Ne.symm notBackslash) ⟨rfl, rfl⟩ reversed
        rw [open_iff, first]
        by_cases pair : rest.head? = some '\\' ∨ rest.head? = some quote
        · -- Both backslashes are lost.
          rw [quotedState_pair (Ne.symm notBackslash)
            ⟨rfl, (escape_head_backslash notBackslash rest [' ']).mpr pair⟩]
          rw [unescaped, if_pos ⟨rfl, pair⟩]
          exact inductionHypothesis reversed
        · rw [quotedState_other (Ne.symm notBackslash)
            (fun both => pair ((escape_head_backslash notBackslash rest [' ']).mp both.2))]
          rw [unescaped, if_neg (fun both => pair both.2)]
          simpa using inductionHypothesis ('\\' :: reversed)
      by_cases closing : c = quote
      · subst closing
        have first : quotedState c reversed (escape c (c :: rest) ++ [c, ' ']) =
            quotedState c ('\\' :: reversed) (c :: (escape c rest ++ [c, ' '])) := by
          rw [escape_special (Or.inr rfl)]
          refine quotedState_other (Ne.symm notBackslash) ?_ reversed
          rintro ⟨_, next⟩
          exact notBackslash (Option.some.inj next)
        rw [staysOpen_cons, first, unescaped, if_neg (fun both => notBackslash both.1)]
        cases ends : rest.head?.any endsQuoted with
        | false =>
            have goesOn := (escape_head_ends isQuote rest [' ']).trans ends
            rw [quotedState_escaped goesOn]
            simpa using inductionHypothesis (c :: reversed)
        | true =>
            -- The quote is taken for the closing one.
            refine ⟨fun opened => absurd (opened.1 rfl) (by simp), fun _ => ?_⟩
            rw [quotedState_close ((escape_head_ends isQuote rest [' ']).trans ends)]
            exact length_escape rest [c, ' ']
      · have plain : ¬(c = '\\' ∨ c = quote) := not_or.mpr ⟨backslash, closing⟩
        have open_iff : StaysOpen quote (c :: rest) <-> StaysOpen quote rest := by
          rw [staysOpen_cons]
          exact ⟨fun both => both.2, fun later => ⟨fun same => absurd same closing, later⟩⟩
        rw [open_iff, escape_other plain, List.cons_append,
          quotedState_other closing (fun pair => backslash pair.1), unescaped,
          if_neg (fun pair => backslash pair.1)]
        simpa using inductionHypothesis (c :: reversed)

theorem length_unescaped (text : Text) : (unescaped quote text).length ≤ text.length := by
  induction text with
  | nil => exact Nat.le_refl _
  | cons c rest inductionHypothesis =>
      rw [unescaped]
      split
      · exact Nat.le_succ_of_le inductionHypothesis
      · exact Nat.succ_le_succ inductionHypothesis

/-- Nothing is lost when no backslash stands in front of a backslash or a quote. -/
theorem unescaped_eq_self_iff (text : Text) :
    unescaped quote text = text <->
      text.IsChain (fun first second => first = '\\' -> second ≠ '\\' ∧ second ≠ quote) := by
  induction text with
  | nil => exact ⟨fun _ => .nil, fun _ => rfl⟩
  | cons c rest inductionHypothesis =>
      rw [unescaped, List.isChain_cons, ← inductionHypothesis]
      by_cases lost : c = '\\' ∧ (rest.head? = some '\\' ∨ rest.head? = some quote)
      · rw [if_pos lost]
        constructor
        · intro same
          have shorter : (unescaped quote rest).length ≤ rest.length := length_unescaped rest
          rw [same, List.length_cons] at shorter
          omega
        · rintro ⟨kept, _⟩
          rcases lost.2 with next | next
          · exact absurd rfl (kept _ next lost.1).1
          · exact absurd rfl (kept _ next lost.1).2
      · rw [if_neg lost, List.cons.injEq]
        constructor
        · rintro ⟨_, same⟩
          refine ⟨fun d next backslash => ⟨?_, ?_⟩, same⟩
          · rintro rfl
            exact lost ⟨backslash, Or.inl next⟩
          · rintro rfl
            exact lost ⟨backslash, Or.inr next⟩
        · exact fun both => ⟨rfl, both.2⟩

theorem tidy_iff (text : Text) :
    text.IsChain (Tidy quote) <->
      StaysOpen quote text ∧
        text.IsChain (fun first second => first = '\\' -> second ≠ '\\' ∧ second ≠ quote) := by
  induction text with
  | nil => exact ⟨fun _ => ⟨.nil, .nil⟩, fun _ => .nil⟩
  | cons c rest inductionHypothesis =>
      rw [StaysOpen, List.isChain_cons, List.isChain_cons, List.isChain_cons, inductionHypothesis]
      constructor
      · rintro ⟨tidy, opened, kept⟩
        exact ⟨⟨fun d next => (tidy d next).2, opened⟩, fun d next => (tidy d next).1, kept⟩
      · rintro ⟨⟨closes, opened⟩, lost, kept⟩
        exact ⟨fun d next => ⟨lost d next, closes d next⟩, opened, kept⟩

end Reading

/-- A quoted and escaped text is read back, up to the blank behind it, exactly when no
backslash in it stands in front of a backslash or the quote, and no quote in front
of a character that ends the token. -/
theorem parseToken_escape_iff (quote : Char) (isQuote : IsQuote quote) (text : Text) :
    parseToken (quote :: (escape quote text ++ [quote, ' '])) =
        (⟨.normal, quote :: (text ++ [quote])⟩, [' ']) <->
      text.IsChain (Tidy quote) := by
  rcases quotedState_escape isQuote text [quote] with ⟨reads, early⟩
  rw [parseToken_quote isQuote, tidy_iff, ← unescaped_eq_self_iff]
  by_cases opened : StaysOpen quote text
  · rw [reads opened]
    simp [opened]
  · refine ⟨fun same => ?_, fun both => absurd both.1 opened⟩
    have longer := early opened
    rw [same] at longer
    exact absurd longer (by simp)

/-- A quote and single backslashes in front of other characters. -/
theorem escapedQuote_isRead :
    parseToken ('"' :: (escape '"' "a\"b\\c\\".toList ++ ['"', ' '])) =
      (⟨.normal, "\"a\"b\\c\\\"".toList⟩, [' ']) :=
  (parseToken_escape_iff '"' (Or.inl rfl) "a\"b\\c\\".toList).mpr (by decide)

/-- Of two backslashes one is lost, and a quote in front of a blank ends the token. -/
theorem escapedBackslashes_areLost :
    parseToken ('"' :: (escape '"' "\\\\".toList ++ ['"', ' '])) =
        (⟨.normal, "\"\\\"".toList⟩, [' ']) ∧
      parseToken ('"' :: (escape '"' "\" ".toList ++ ['"', ' '])) =
        (⟨.normal, "\"\\\"".toList⟩, " \" ".toList) ∧
      ¬ (forall quote, IsQuote quote -> forall text,
        parseToken (quote :: (escape quote text ++ [quote, ' '])) =
          (⟨.normal, quote :: (text ++ [quote])⟩, [' '])) := by
  refine ⟨by decide, by decide, fun decodes => ?_⟩
  exact absurd (decodes '"' (Or.inl rfl) "\\\\".toList) (by decide)

end Config
end Webserver
