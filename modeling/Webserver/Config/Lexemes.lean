import Webserver.Config.Printer

namespace Webserver
namespace Config

/-!
# The characters of the tokens

A text without comments and quotes is its words and symbols in order, with blanks
between them.  The last word before the end of the file is not a token.
-/

/-- No character begins a comment or a quoted word. -/
def Unquoted (text : Text) : Prop := forall c, c ∈ text -> c ≠ '#' ∧ ¬IsQuote c

instance (text : Text) : Decidable (Unquoted text) :=
  List.decidableBAll (fun c => c ≠ '#' ∧ ¬IsQuote c) text

def AllBlank (text : Text) : Prop := forall c, c ∈ text -> isBlank c = true

theorem Unquoted.of_append (front : Text) {back : Text} (unquoted : Unquoted (front ++ back)) :
    Unquoted back :=
  fun c inside => unquoted c (List.mem_append_right front inside)

/-- One call of `ParseToken` on an unquoted text. -/
theorem parseToken_lexeme {text : Text} (unquoted : Unquoted text) :
    Exists fun blanks : Text =>
      text = blanks ++ ((parseToken text).1.value ++ (parseToken text).2) ∧ AllBlank blanks ∧
      ((parseToken text).1.type = .normal ∧ Bare (parseToken text).1.value ∧
          (Exists fun ender : Char => Exists fun after : Text =>
            (parseToken text).2 = ender :: after ∧ endsWord ender = true) ∨
        (parseToken text).1.type = .statementEnd ∨ (parseToken text).1.type = .startBlock ∨
        (parseToken text).1.type = .endBlock ∨
        (parseToken text).1.type = .eof ∧ (parseToken text).2 = [] ∧
          ((parseToken text).1.value = [] ∨ Bare (parseToken text).1.value)) := by
  have noBlanks : AllBlank [] := fun c inside => by cases inside
  fun_induction parseToken text with
  | case1 => exact ⟨[], rfl, noBlanks, by simp⟩
  | case2 rest => exact ⟨[], rfl, noBlanks, by simp⟩
  | case3 rest => exact ⟨[], rfl, noBlanks, by simp⟩
  | case4 rest => exact absurd rfl (unquoted _ List.mem_cons_self).1
  | case5 rest => exact absurd (Or.inl rfl) (unquoted _ List.mem_cons_self).2
  | case6 rest => exact absurd (Or.inr rfl) (unquoted _ List.mem_cons_self).2
  | case7 rest => exact ⟨[], rfl, noBlanks, by simp⟩
  | case8 c rest _ _ _ _ _ _ blank inductionHypothesis =>
      rcases inductionHypothesis (Unquoted.of_append [c] unquoted) with
        ⟨blanks, textIs, allBlank, ended⟩
      refine ⟨c :: blanks, ?_, List.forall_mem_cons.mpr ⟨blank, allBlank⟩, ended⟩
      rw [List.cons_append, ← textIs]
  | case9 c rest notOpen notClose notComment notDouble notSingle notEnd notBlank =>
      rcases normalState_split [c] rest with ⟨others, valueIs, restIs, inside, ended⟩
      have bare : Bare (normalState [c] rest).1.value := by
        refine ⟨c, others, valueIs, ?_, inside⟩
        simp [beginsWord, notOpen, notClose, notComment, notDouble, notSingle, notEnd, notBlank]
      refine ⟨[], ?_, noBlanks, ?_⟩
      · rw [valueIs, List.nil_append, List.append_assoc, ← restIs]
        rfl
      · rcases ended with ⟨isNormal, before⟩ | ⟨isEnd, nothing⟩
        · exact Or.inl ⟨isNormal, bare, before⟩
        · exact Or.inr (Or.inr (Or.inr (Or.inr ⟨isEnd, nothing, Or.inr bare⟩)))

/-- Tokens begin at suffixes of the text. -/
theorem Boundary.suffix {text rest : Text} (boundary : Boundary text rest) : rest <:+ text := by
  induction boundary with
  | here _ => exact List.suffix_rfl
  | later _ _ inductionHypothesis => exact inductionHypothesis.trans (parseToken_suffix _).1

theorem Unquoted.of_boundary {text rest : Text} (unquoted : Unquoted text)
    (boundary : Boundary text rest) : Unquoted rest :=
  fun c inside => unquoted c ((boundary.suffix).mem inside)

theorem tokens_uncons {text : Text} {token : Token} {others : List Token}
    (tokensAre : tokens text = token :: others) (goesOn : token.last = false) :
    Exists fun after : Text => parseToken text = (token, after) ∧ tokens after = others := by
  rw [tokens_eq] at tokensAre
  by_cases last : (parseToken text).1.last = true
  · rw [if_pos last] at tokensAre
    rw [(List.cons.inj tokensAre).1, goesOn] at last
    cases last
  · rw [if_neg last] at tokensAre
    rcases List.cons.inj tokensAre with ⟨isFirst, othersAre⟩
    exact ⟨(parseToken text).2, by rw [← isFirst], othersAre⟩

/-- A word of the text is followed by a character that ends it. -/
theorem word_lexeme {text : Text} (unquoted : Unquoted text) {word : Text} {others : List Token}
    (tokensAre : tokens text = ⟨.normal, word⟩ :: others) :
    Exists fun blanks : Text => Exists fun ender : Char => Exists fun after : Text =>
      text = blanks ++ (word ++ ender :: after) ∧ AllBlank blanks ∧ Bare word ∧
      endsWord ender = true ∧ parseToken text = (⟨.normal, word⟩, ender :: after) ∧
      tokens (ender :: after) = others := by
  rcases tokens_uncons tokensAre rfl with ⟨rest, isRead, othersAre⟩
  rcases parseToken_lexeme unquoted with ⟨blanks, textIs, allBlank, ended⟩
  rw [isRead] at textIs ended
  rcases ended with ⟨_, bare, ender, after, rfl, ends⟩ | impossible
  · exact ⟨blanks, ender, after, textIs, allBlank, bare, ends, isRead, othersAre⟩
  · simp at impossible

theorem symbol_lexeme {text : Text} (unquoted : Unquoted text) {type : TokenType} {symbol : Char}
    {others : List Token} (tokensAre : tokens text = ⟨type, [symbol]⟩ :: others)
    (goesOn : (Token.mk type [symbol]).last = false) :
    Exists fun blanks : Text => Exists fun after : Text =>
      text = blanks ++ symbol :: after ∧ AllBlank blanks ∧
      parseToken text = (⟨type, [symbol]⟩, after) ∧ tokens after = others := by
  rcases tokens_uncons tokensAre goesOn with ⟨after, isRead, othersAre⟩
  rcases parseToken_lexeme unquoted with ⟨blanks, textIs, allBlank, _⟩
  rw [isRead] at textIs
  exact ⟨blanks, after, textIs, allBlank, isRead, othersAre⟩

/-- What is left at the end of the file is blank, but for a word that is not ended. -/
theorem end_lexeme {text : Text} (unquoted : Unquoted text) {final : Text}
    (tokensAre : tokens text = [⟨.eof, final⟩]) :
    Exists fun blanks : Text =>
      text = blanks ++ final ∧ AllBlank blanks ∧ (final = [] ∨ Bare final) := by
  have isEnd : (parseToken text).1 = ⟨.eof, final⟩ := by
    rw [tokens_eq] at tokensAre
    split at tokensAre
    · exact List.singleton_inj.mp tokensAre
    · exact (List.cons.inj tokensAre).1
  rcases parseToken_lexeme unquoted with ⟨blanks, textIs, allBlank, ended⟩
  simp only [isEnd, reduceCtorEq, false_and, false_or, true_and] at textIs ended
  rw [ended.1, List.append_nil] at textIs
  exact ⟨blanks, textIs, allBlank, ended.2⟩

end Config
end Webserver
