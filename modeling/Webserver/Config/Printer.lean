import Webserver.Config.Flatten

namespace Webserver
namespace Config

/-!
# `ToString`

Statements are printed one on a line, with the words as they are in the tree.
The tokenizer reads a printed word back if it is a bare word, or a quoted word
without its own quote inside.  A quote inside a quoted word has lost its
backslash, and the tokenizer stops there with an error.
-/

/-- Two spaces for each level. -/
def indent (depth : Nat) : Text := List.replicate (2 * depth) ' '

/-- `NginxConfigStatement::ToString`, given the text of its block. -/
def statementToString (depth : Nat) (words : List Text) (block : Option Text) : Text :=
  indent depth ++ [' '].intercalate words ++
    (match block with
      | some inner => " \x7b\n".toList ++ inner ++ indent depth ++ ['}']
      | none => [';']) ++ ['\n']

/-- `NginxConfig::ToString`. -/
def NginxConfig.toString : NginxConfig -> Nat -> Text
  | empty, _ => []
  | simple words next, depth => statementToString depth words none ++ next.toString depth
  | block words child next, depth =>
      statementToString depth words (some (child.toString (depth + 1))) ++ next.toString depth

/-! ## Words -/

/-- The characters that begin a bare word. -/
def beginsWord (c : Char) : Bool :=
  !(c == '{' || c == '}' || c == '#' || c == '"' || c == '\'' || c == ';' || isBlank c)

def IsQuote (quote : Char) : Prop := quote = '"' ∨ quote = '\''

instance (quote : Char) : Decidable (IsQuote quote) :=
  inferInstanceAs (Decidable (quote = '"' ∨ quote = '\''))

/-- A word that is not quoted. -/
def Bare (word : Text) : Prop :=
  Exists fun c : Char => Exists fun rest : Text =>
    word = c :: rest ∧ beginsWord c = true ∧ forall d, d ∈ rest -> endsWord d = false

/-- Two characters that may stand side by side in a quoted word: a backslash
stands neither before a backslash nor before a quote, and a quote not before a
character that ends the word. -/
def Tidy (quote first second : Char) : Prop :=
  (first = '\\' -> second ≠ '\\' ∧ second ≠ quote) ∧
  (first = quote -> endsQuoted second = false)

instance (quote : Char) : DecidableRel (Tidy quote) := fun first second =>
  inferInstanceAs (Decidable ((first = '\\' -> second ≠ '\\' ∧ second ≠ quote) ∧
    (first = quote -> endsQuoted second = false)))

/-- A quoted word with the given characters between its quotes. -/
def Quoted (quote : Char) (inner word : Text) : Prop :=
  IsQuote quote ∧ word = quote :: (inner ++ [quote]) ∧ inner.IsChain (Tidy quote)

/-- A word that can be printed as it is. -/
def Printable (word : Text) : Prop :=
  Bare word ∨
    Exists fun quote : Char => Exists fun inner : Text =>
      Quoted quote inner word ∧ quote ∉ inner

/-- A quoted word with its own quote inside. -/
def Torn (word : Text) : Prop :=
  Exists fun quote : Char => Exists fun inner : Text =>
    Quoted quote inner word ∧ quote ∈ inner

theorem isQuote_not_backslash {quote : Char} (isQuote : IsQuote quote) : quote ≠ '\\' := by
  rcases isQuote with rfl | rfl <;> decide

theorem isQuote_not_ender {quote : Char} (isQuote : IsQuote quote) :
    endsQuoted quote = false := by
  rcases isQuote with rfl | rfl <;> decide

theorem parseToken_quote {quote : Char} (isQuote : IsQuote quote) (rest : Text) :
    parseToken (quote :: rest) = quotedState quote [quote] rest := by
  rcases isQuote with rfl | rfl <;> rfl

/-! ## Reading a word -/

theorem normalState_word {rest : Text} (inside : forall d, d ∈ rest -> endsWord d = false)
    (reversed : Text) {ender : Char} (ends : endsWord ender = true) (after : Text) :
    normalState reversed (rest ++ ender :: after) =
      (⟨.normal, reversed.reverse ++ rest⟩, ender :: after) := by
  induction rest generalizing reversed with
  | nil => simp [normalState, ends]
  | cons d rest inductionHypothesis =>
      have goesOn := inside d List.mem_cons_self
      rw [List.cons_append, normalState, goesOn, if_neg Bool.false_ne_true,
        inductionHypothesis (fun e later => inside e (List.mem_cons_of_mem d later))]
      simp

theorem parseToken_bare {word : Text} (bare : Bare word) {ender : Char}
    (ends : endsWord ender = true) (after : Text) :
    parseToken (word ++ ender :: after) = (⟨.normal, word⟩, ender :: after) := by
  rcases bare with ⟨c, rest, rfl, begins, inside⟩
  simp only [beginsWord, Bool.not_eq_true', Bool.or_eq_false_iff, beq_eq_false_iff_ne] at begins
  rcases begins with
    ⟨⟨⟨⟨⟨⟨notOpen, notClose⟩, notComment⟩, notDouble⟩, notSingle⟩, notEnd⟩, notBlank⟩
  rw [List.cons_append, parseToken, if_neg notOpen, if_neg notClose, if_neg notComment,
    if_neg notDouble, if_neg notSingle, if_neg notEnd, notBlank, if_neg Bool.false_ne_true,
    normalState_word inside [c] ends]
  rfl

/-- Up to a quote, the characters between the quotes are copied. -/
theorem quotedState_copy {quote : Char} (notBackslash : quote ≠ '\\') {inner : Text}
    (noQuote : quote ∉ inner) (tidy : inner.IsChain (Tidy quote)) (reversed after : Text) :
    quotedState quote reversed (inner ++ quote :: after) =
      quotedState quote (inner.reverse ++ reversed) (quote :: after) := by
  induction inner generalizing reversed with
  | nil => rfl
  | cons c inner inductionHypothesis =>
      have notQuote : c ≠ quote := fun same => noQuote (by simp [same])
      have notPair : ¬(c = '\\' ∧ (inner ++ quote :: after).head? = some '\\') := by
        rintro ⟨isBackslash, nextIs⟩
        cases inner with
        | nil => exact notBackslash (Option.some.inj nextIs)
        | cons d inner =>
            exact ((List.isChain_cons_cons.mp tidy).1.1 isBackslash).1 (Option.some.inj nextIs)
      rw [List.cons_append, quotedState_other notQuote notPair,
        inductionHypothesis (fun later => noQuote (List.mem_cons_of_mem c later)) tidy.of_cons]
      simp

theorem parseToken_quoted {quote : Char} {inner word : Text} (quoted : Quoted quote inner word)
    (noQuote : quote ∉ inner) {ender : Char} (ends : endsQuoted ender = true) (after : Text) :
    parseToken (word ++ ender :: after) = (⟨.normal, word⟩, ender :: after) := by
  rcases quoted with ⟨isQuote, rfl, tidy⟩
  rw [List.cons_append, parseToken_quote isQuote, List.append_assoc, List.singleton_append,
    quotedState_copy (isQuote_not_backslash isQuote) noQuote tidy,
    quotedState_close (by simpa using ends)]
  simp

/-- A printable word is read back. -/
theorem parseToken_printable {word : Text} (printable : Printable word) {ender : Char}
    (ends : endsQuoted ender = true) (after : Text) :
    parseToken (word ++ ender :: after) = (⟨.normal, word⟩, ender :: after) := by
  rcases printable with bare | ⟨quote, inner, quoted, noQuote⟩
  · have endsToo : endsWord ender = true := by
      rw [endsQuoted] at ends
      rw [endsWord, ends]
      rfl
    exact parseToken_bare bare endsToo after
  · exact parseToken_quoted quoted noQuote ends after

/-- The tokenizer stops at the first quote inside a quoted word. -/
theorem parseToken_torn {word : Text} (torn : Torn word) (after : Text) :
    (parseToken (word ++ after)).1.type = .error := by
  rcases torn with ⟨quote, inner, ⟨isQuote, rfl, tidy⟩, inside⟩
  rcases List.eq_append_cons_of_mem inside with ⟨front, back, rfl, noQuote⟩
  rcases List.isChain_append.mp tidy with ⟨frontTidy, backTidy, joined⟩
  have unescaped : (front.reverse ++ [quote]).head? ≠ some '\\' := by
    rw [List.head?_append, List.head?_reverse]
    cases lastIs : front.getLast? with
    | none => simpa using isQuote_not_backslash isQuote
    | some c =>
        intro isBackslash
        exact ((joined c lastIs quote rfl).1 (Option.some.inj isBackslash)).2 rfl
  have goesOn : (back ++ quote :: after).head?.any endsQuoted = false := by
    cases back with
    | nil => exact isQuote_not_ender isQuote
    | cons c back => exact (List.isChain_cons_cons.mp backTidy).1.2 rfl
  have split : quote :: (front ++ quote :: back ++ [quote]) ++ after =
      quote :: (front ++ quote :: (back ++ quote :: after)) := by simp
  rw [split, parseToken_quote isQuote,
    quotedState_copy (isQuote_not_backslash isQuote) noQuote frontTidy,
    quotedState_stray goesOn unescaped]

/-! ## Reading the printed text -/

theorem tokens_cons (token : Token) {text after : Text}
    (isRead : parseToken text = (token, after)) (goesOn : token.last = false) :
    tokens text = token :: tokens after := by
  rw [tokens_eq, isRead]
  simp only [goesOn, if_neg Bool.false_ne_true]

theorem parseToken_blank {blank : Char} (isBlank : isBlank blank = true) (text : Text) :
    parseToken (blank :: text) = parseToken text := by
  simp only [Config.isBlank, Bool.or_eq_true, beq_iff_eq] at isBlank
  rcases isBlank with ((rfl | rfl) | rfl) | rfl <;> rfl

theorem tokens_blank {blank : Char} (isBlank : isBlank blank = true) (after : Text) :
    tokens (blank :: after) = tokens after := by
  rw [tokens_eq, parseToken_blank isBlank, ← tokens_eq]

theorem tokens_indent (depth : Nat) (after : Text) :
    tokens (indent depth ++ after) = tokens after := by
  rw [indent]
  generalize 2 * depth = spaces
  induction spaces with
  | zero => rfl
  | succ spaces inductionHypothesis =>
      rw [List.replicate_succ, List.cons_append, tokens_blank rfl, inductionHypothesis]

theorem tokens_printable {word : Text} (printable : Printable word) {ender : Char}
    (ends : endsQuoted ender = true) (after : Text) :
    tokens (word ++ ender :: after) = ⟨.normal, word⟩ :: tokens (ender :: after) :=
  tokens_cons _ (parseToken_printable printable ends after) rfl

/-- The words of a statement are read back. -/
theorem tokens_words {words : List Text} (nonempty : words ≠ [])
    (printable : forall word, word ∈ words -> Printable word) {ender : Char}
    (ends : endsQuoted ender = true) (after : Text) :
    tokens ([' '].intercalate words ++ ender :: after) =
      words.map (Token.mk .normal) ++ tokens (ender :: after) := by
  induction words with
  | nil => exact absurd rfl nonempty
  | cons word words inductionHypothesis =>
      have wordPrintable := printable word List.mem_cons_self
      cases words with
      | nil => simpa using tokens_printable wordPrintable ends after
      | cons second words =>
          rw [List.intercalate_cons_cons, List.append_assoc, List.append_assoc,
            List.singleton_append, tokens_printable wordPrintable rfl, tokens_blank rfl,
            inductionHypothesis (List.cons_ne_nil _ _)
              (fun other isOther => printable other (List.mem_cons_of_mem word isOther))]
          rfl

/-- The tokenizer does not get past a torn word of a statement. -/
theorem tokens_words_torn {words : List Text}
    (known : forall word, word ∈ words -> Printable word ∨ Torn word)
    (torn : ¬forall word, word ∈ words -> Printable word) (ender : Char)
    (after : Text) :
    Exists fun token : Token =>
      token ∈ tokens ([' '].intercalate words ++ ender :: after) ∧ token.type = .error := by
  induction words with
  | nil => exact absurd (fun word isWord => by cases isWord) torn
  | cons word words inductionHypothesis =>
      rcases known word List.mem_cons_self with wordPrintable | wordTorn
      · have restTorn : ¬forall other, other ∈ words -> Printable other := by
          intro restPrintable
          exact torn (List.forall_mem_cons.mpr ⟨wordPrintable, restPrintable⟩)
        rcases inductionHypothesis (fun other isOther => known other (List.mem_cons_of_mem word
            isOther)) restTorn with ⟨token, isToken, isError⟩
        refine ⟨token, ?_, isError⟩
        cases words with
        | nil => exact absurd (fun other isOther => by cases isOther) restTorn
        | cons second words =>
            rw [List.intercalate_cons_cons, List.append_assoc, List.append_assoc,
              List.singleton_append, tokens_printable wordPrintable rfl, tokens_blank rfl]
            exact List.mem_cons_of_mem _ isToken
      · have stops : forall rest : Text,
            Exists fun token : Token => token ∈ tokens (word ++ rest) ∧ token.type = .error := by
          intro rest
          have isError := parseToken_torn wordTorn rest
          refine ⟨(parseToken (word ++ rest)).1, ?_, isError⟩
          rw [tokens_eq, if_pos (by simp [Token.last, isError])]
          exact List.mem_singleton.mpr rfl
        cases words with
        | nil => simpa using stops (ender :: after)
        | cons second words =>
            rw [List.intercalate_cons_cons, List.append_assoc, List.append_assoc]
            exact stops _

/-- What follows the words of a printed statement. -/
def statementTail (depth : Nat) (block : Option Text) (after : Text) : Text :=
  match block with
  | some inner => ' ' :: '{' :: '\n' :: (inner ++ (indent depth ++ '}' :: '\n' :: after))
  | none => ';' :: '\n' :: after

theorem statementToString_append (depth : Nat) (words : List Text) (block : Option Text)
    (after : Text) :
    statementToString depth words block ++ after =
      indent depth ++ ([' '].intercalate words ++ statementTail depth block after) := by
  cases block <;> simp [statementToString, statementTail]

theorem statementTail_begins (depth : Nat) (block : Option Text) (after : Text) :
    Exists fun ender : Char => Exists fun rest : Text =>
      statementTail depth block after = ender :: rest ∧ endsQuoted ender = true := by
  cases block with
  | none => exact ⟨';', _, rfl, rfl⟩
  | some inner => exact ⟨' ', _, rfl, rfl⟩

theorem tokens_simpleTail (depth : Nat) (after : Text) :
    tokens (statementTail depth none after) = ⟨.statementEnd, [';']⟩ :: tokens after := by
  rw [statementTail, tokens_cons ⟨.statementEnd, [';']⟩ rfl rfl, tokens_blank rfl]

theorem tokens_blockTail (depth : Nat) (inner after : Text) :
    tokens (statementTail depth (some inner) after) =
      ⟨.startBlock, ['{']⟩ :: tokens (inner ++ (indent depth ++ '}' :: '\n' :: after)) := by
  rw [statementTail, tokens_blank rfl, tokens_cons ⟨.startBlock, ['{']⟩ rfl rfl,
    tokens_blank rfl]

theorem tokens_blockEnd (depth : Nat) (after : Text) :
    tokens (indent depth ++ '}' :: '\n' :: after) = ⟨.endBlock, ['}']⟩ :: tokens after := by
  rw [tokens_indent, tokens_cons ⟨.endBlock, ['}']⟩ rfl rfl, tokens_blank rfl]

/-- The words of a printed statement are read back. -/
theorem tokens_statement {words : List Text} (nonempty : words ≠ [])
    (printable : forall word, word ∈ words -> Printable word) (depth : Nat)
    (block : Option Text) (after : Text) :
    tokens (statementToString depth words block ++ after) =
      words.map (Token.mk .normal) ++ tokens (statementTail depth block after) := by
  rcases statementTail_begins depth block after with ⟨ender, rest, tailIs, ends⟩
  rw [statementToString_append, tokens_indent, tailIs, tokens_words nonempty printable ends]

/-- A printed tree with printable words is read as the flattened tree. -/
theorem tokens_toString {config : NginxConfig}
    (nonempty : config.AllStatements (fun words => words ≠ []))
    (printable : config.AllStatements (fun words => forall word, word ∈ words -> Printable word))
    (depth : Nat) (after : Text) :
    tokens (config.toString depth ++ after) = config.flatten ++ tokens after := by
  induction config generalizing depth after with
  | empty => rfl
  | simple words next inductionHypothesis =>
      rw [NginxConfig.toString, List.append_assoc, tokens_statement nonempty.1 printable.1,
        tokens_simpleTail, inductionHypothesis nonempty.2 printable.2]
      simp [NginxConfig.flatten]
  | block words child next childHypothesis nextHypothesis =>
      rw [NginxConfig.toString, List.append_assoc, tokens_statement nonempty.1 printable.1,
        tokens_blockTail, childHypothesis nonempty.2.1 printable.2.1, tokens_blockEnd,
        nextHypothesis nonempty.2.2 printable.2.2]
      simp [NginxConfig.flatten]

/-- A printed tree with a torn word is not read to its end. -/
theorem tokens_toString_torn {config : NginxConfig}
    (nonempty : config.AllStatements (fun words => words ≠ []))
    (known : config.AllStatements (fun words =>
      forall word, word ∈ words -> Printable word ∨ Torn word))
    (torn : ¬config.AllStatements (fun words => forall word, word ∈ words -> Printable word))
    (depth : Nat) (after : Text) :
    Exists fun token : Token =>
      token ∈ tokens (config.toString depth ++ after) ∧ token.type = .error := by
  have tornWords : forall (words : List Text) (block : Option Text) (rest : Text),
      (forall word, word ∈ words -> Printable word ∨ Torn word) ->
      (¬forall word, word ∈ words -> Printable word) ->
      forall depth : Nat, Exists fun token : Token =>
        token ∈ tokens (statementToString depth words block ++ rest) ∧ token.type = .error := by
    intro words block rest wordsKnown wordsTorn depth
    rcases statementTail_begins depth block rest with ⟨ender, tail, tailIs, _⟩
    rw [statementToString_append, tokens_indent, tailIs]
    exact tokens_words_torn wordsKnown wordsTorn ender tail
  induction config generalizing depth after with
  | empty => exact absurd trivial torn
  | simple words next inductionHypothesis =>
      rw [NginxConfig.toString, List.append_assoc]
      by_cases printable : forall word, word ∈ words -> Printable word
      · rcases inductionHypothesis nonempty.2 known.2 (fun nextPrintable => torn ⟨printable,
            nextPrintable⟩) depth after with ⟨token, isToken, isError⟩
        rw [tokens_statement nonempty.1 printable, tokens_simpleTail]
        exact ⟨token, by simp [isToken], isError⟩
      · exact tornWords words none _ known.1 printable depth
  | block words child next childHypothesis nextHypothesis =>
      rw [NginxConfig.toString, List.append_assoc]
      by_cases printable : forall word, word ∈ words -> Printable word
      · rw [tokens_statement nonempty.1 printable, tokens_blockTail]
        by_cases childPrintable : child.AllStatements
            (fun words => forall word, word ∈ words -> Printable word)
        · rcases nextHypothesis nonempty.2.2 known.2.2 (fun nextPrintable => torn ⟨printable,
              childPrintable, nextPrintable⟩) depth after with ⟨token, isToken, isError⟩
          rw [tokens_toString nonempty.2.1 childPrintable, tokens_blockEnd]
          exact ⟨token, by simp [isToken], isError⟩
        · rcases childHypothesis nonempty.2.1 known.2.1 childPrintable (depth + 1) (indent depth ++
              '}' :: '\n' :: (next.toString depth ++ after)) with ⟨token, isToken, isError⟩
          exact ⟨token, by simp [isToken], isError⟩
      · exact tornWords words _ _ known.1 printable depth

end Config
end Webserver
