import Webserver.Config.Printer
import Mathlib.Data.Bool.AllAny

namespace Webserver
namespace Config

/-!
# Printing and parsing again

The words of an accepted text are bare words and quoted words, and a quoted word
can be printed as it is if and only if its quote state ended at the first quote
it saw.  If all quoted words of a text are like that, then the printed tree is
read back; otherwise the printed tree is refused.
-/

/-! ## Accepted texts -/

/-- There is one last token. -/
theorem last_unique {text : Text} {first second : Token} (isFirst : first ∈ tokens text)
    (isSecond : second ∈ tokens text) (firstLast : first.last = true)
    (secondLast : second.last = true) : first = second := by
  rcases List.append_of_mem isFirst with ⟨before, after, sequenceIs⟩
  rcases List.append_of_mem isSecond with ⟨before', after', sequenceIs'⟩
  rcases tokensWithin_eof _ text sequenceIs firstLast with rfl
  rcases tokensWithin_eof _ text sequenceIs' secondLast with rfl
  exact List.singleton_inj.mp (List.append_inj' (sequenceIs.symm.trans sequenceIs') rfl).2

theorem eof_of_recognize {types : List TokenType} {height : Nat} {last : TokenType}
    (accepted : recognize height last types = .ok true) : TokenType.eof ∈ types := by
  fun_induction recognize height last types with
  | case1 | case2 | case3 | case6 | case8 | case11 => cases accepted
  | case4 _ _ _ _ _ inductionHypothesis =>
      exact List.mem_cons_of_mem _ (inductionHypothesis accepted)
  | case5 _ _ _ _ inductionHypothesis =>
      exact List.mem_cons_of_mem _ (inductionHypothesis accepted)
  | case7 _ _ _ _ _ inductionHypothesis =>
      exact List.mem_cons_of_mem _ (inductionHypothesis accepted)
  | case9 _ _ _ _ _ inductionHypothesis =>
      exact List.mem_cons_of_mem _ (inductionHypothesis accepted)
  | case10 => exact List.mem_cons_self

/-- An accepted text has no error. -/
theorem no_error_of_accepted {text : Text} {config : NginxConfig}
    (accepted : parse text = .ok (true, config)) {token : Token}
    (isToken : token ∈ tokens text) : token.type ≠ .error := by
  intro isError
  have verdict := parse_verdict text
  rw [accepted] at verdict
  have ended := (List.mem_filter.mp (eof_of_recognize verdict.symm)).1
  rcases List.mem_map.mp ended with ⟨final, isFinal, finalIs⟩
  have same := last_unique isToken isFinal (by simp [Token.last, isError])
    (by simp [Token.last, finalIs])
  rw [same, finalIs] at isError
  cases isError

/-! ## The words of a text -/

/-- After its opening quote, the text has a next such quote, and a quoted token
may end there. -/
def ClosesFirst (quote : Char) (body : Text) : Prop :=
  ((body.dropWhile (fun c => !(c == quote))).drop 1).head?.any endsQuoted = true

/-- The quote state, with the characters after its opening quote, in front of the
unread text. -/
def Ready (quote : Char) (inner text : Text) : Prop :=
  inner.IsChain (Tidy quote) ∧
  forall c, inner.getLast? = some c ->
    (c = '\\' -> text.head? ≠ some '\\') ∧
    (c = quote -> text.head?.any endsQuoted = false)

theorem closesFirst_quote (quote : Char) (text : Text) :
    ClosesFirst quote (quote :: text) <-> text.head?.any endsQuoted = true := by
  simp [ClosesFirst]

theorem closesFirst_other {quote c : Char} (notQuote : c ≠ quote) (text : Text) :
    ClosesFirst quote (c :: text) <-> ClosesFirst quote text := by
  simp [ClosesFirst, notQuote]

/-- A character is added that may stand after the last one. -/
theorem Ready.snoc {quote c : Char} {inner text : Text} (ready : inner.IsChain (Tidy quote))
    (tidy : forall b, inner.getLast? = some b -> Tidy quote b c)
    (pending : (c = '\\' -> text.head? ≠ some '\\') ∧
      (c = quote -> text.head?.any endsQuoted = false)) :
    Ready quote (inner ++ [c]) text := by
  constructor
  · rw [List.isChain_append]
    refine ⟨ready, .singleton c, fun b lastIs d firstIs => ?_⟩
    rcases Option.some.inj firstIs with rfl
    exact tidy b lastIs
  · intro d lastIs
    rw [List.getLast?_concat] at lastIs
    rcases Option.some.inj lastIs with rfl
    exact pending

/-- The quote state keeps neighbours tidy.  Its own quote gets inside the token
only when it does not end at the first one it sees. -/
theorem quotedState_word {quote : Char} (isQuote : IsQuote quote) (text : Text)
    {inner : Text} (ready : Ready quote inner text)
    (isNormal : (quotedState quote (inner.reverse ++ [quote]) text).1.type = .normal) :
    Exists fun inner' : Text =>
      Quoted quote inner' (quotedState quote (inner.reverse ++ [quote]) text).1.value ∧
      (quote ∈ inner' <-> quote ∈ inner ∨ ¬ClosesFirst quote text) := by
  induction text generalizing inner with
  | nil => cases isNormal
  | cons c rest inductionHypothesis =>
      by_cases closing : c = quote
      · subst closing
        rw [closesFirst_quote]
        by_cases ends : rest.head?.any endsQuoted = true
        · refine ⟨inner, ⟨isQuote, ?_, ready.1⟩, by simp [ends]⟩
          rw [quotedState_close ends]
          simp
        have goesOn : rest.head?.any endsQuoted = false := by simpa using ends
        rcases List.eq_nil_or_concat' inner with rfl | ⟨front, last, rfl⟩
        · rw [quotedState_stray goesOn] at isNormal
          · cases isNormal
          · simpa using isQuote_not_backslash isQuote
        by_cases escaped : last = '\\'
        · -- The backslash at the end is replaced by the quote.
          have pushed : quotedState c ((front ++ [last]).reverse ++ [c]) (c :: rest) =
              quotedState c ((front ++ [c]).reverse ++ [c]) rest := by
            rw [escaped, List.reverse_concat, List.reverse_concat, List.cons_append,
              List.cons_append, quotedState_escaped goesOn]
          have frontChain := List.isChain_append.mp ready.1
          have nextReady : Ready c (front ++ [c]) rest := by
            refine Ready.snoc frontChain.1 (fun b lastIs => ?_) ⟨fun isBackslash => ?_, fun _ => goesOn⟩
            · have beforeLast := frontChain.2.2 b lastIs last rfl
              exact ⟨fun isBackslash => absurd escaped (beforeLast.1 isBackslash).1,
                fun _ => isQuote_not_ender isQuote⟩
            · exact absurd isBackslash (isQuote_not_backslash isQuote)
          rw [pushed] at isNormal ⊢
          rcases inductionHypothesis nextReady isNormal with ⟨inner', quoted, member⟩
          exact ⟨inner', quoted, by simp [member, goesOn]⟩
        · rw [quotedState_stray goesOn] at isNormal
          · cases isNormal
          · simpa using escaped
      rw [closesFirst_other closing]
      by_cases pair : c = '\\' ∧ rest.head? = some '\\'
      · rw [quotedState_pair closing pair] at isNormal ⊢
        refine inductionHypothesis ⟨ready.1, fun last lastIs => ⟨fun isBackslash => ?_, fun _ => ?_⟩⟩
          isNormal
        · exact absurd (congrArg some pair.1) ((ready.2 last lastIs).1 isBackslash)
        · rw [pair.2]
          rfl
      · have pushed : quotedState quote (inner.reverse ++ [quote]) (c :: rest) =
            quotedState quote ((inner ++ [c]).reverse ++ [quote]) rest := by
          rw [quotedState_other closing pair, List.reverse_concat, List.cons_append]
        have nextReady : Ready quote (inner ++ [c]) rest := by
          refine Ready.snoc ready.1 (fun b lastIs => ?_)
            ⟨fun isBackslash nextIs => pair ⟨isBackslash, nextIs⟩, fun same => absurd same closing⟩
          rcases ready.2 b lastIs with ⟨afterBackslash, afterQuote⟩
          exact ⟨fun isBackslash => ⟨fun same => afterBackslash isBackslash (congrArg some same), closing⟩,
            fun same => afterQuote same⟩
        rw [pushed] at isNormal ⊢
        rcases inductionHypothesis nextReady isNormal with ⟨inner', quoted, member⟩
        exact ⟨inner', quoted, by simp [member, Ne.symm closing]⟩

/-- A word is bare, or it is quoted and has its own quote inside unless that quote
ended it where it was first seen. -/
theorem parseToken_word (text : Text) (isNormal : (parseToken text).1.type = .normal) :
    (Bare (parseToken text).1.value ∧
      forall quote body, text.dropWhile isBlank = quote :: body -> ¬IsQuote quote) ∨
    Exists fun quote : Char => Exists fun body : Text => Exists fun inner : Text =>
      text.dropWhile isBlank = quote :: body ∧
      Quoted quote inner (parseToken text).1.value ∧
      (quote ∈ inner <-> ¬ClosesFirst quote body) := by
  have quotedWord : forall (quote : Char) (rest : Text), IsQuote quote ->
      (quotedState quote [quote] rest).1.type = .normal ->
      Exists fun inner : Text => Quoted quote inner (quotedState quote [quote] rest).1.value ∧
        (quote ∈ inner <-> ¬ClosesFirst quote rest) := by
    intro quote rest isQuote isNormal
    have ready : Ready quote [] rest := ⟨.nil, fun c lastIs => by cases lastIs⟩
    rcases quotedState_word isQuote rest ready isNormal with ⟨inner, quoted, member⟩
    exact ⟨inner, quoted, by simpa using member⟩
  fun_induction parseToken text with
  | case1 => cases isNormal
  | case2 rest => cases isNormal
  | case3 rest => cases isNormal
  | case4 rest =>
      rcases commentState_type ['#'] rest with type | type <;> rw [type] at isNormal <;> cases isNormal
  | case5 rest =>
      rcases quotedWord _ rest (Or.inl rfl) isNormal with ⟨inner, quoted, member⟩
      exact Or.inr ⟨_, rest, inner, rfl, quoted, member⟩
  | case6 rest =>
      rcases quotedWord _ rest (Or.inr rfl) isNormal with ⟨inner, quoted, member⟩
      exact Or.inr ⟨_, rest, inner, rfl, quoted, member⟩
  | case7 rest => cases isNormal
  | case8 c rest _ _ _ _ _ _ blank inductionHypothesis =>
      rw [List.dropWhile_cons_of_pos blank]
      exact inductionHypothesis isNormal
  | case9 c rest notOpen notClose notComment notDouble notSingle notEnd notBlank =>
      rcases normalState_split [c] rest with ⟨others, valueIs, _, inside, _⟩
      refine Or.inl ⟨⟨c, others, valueIs, ?_, inside⟩, fun quote body begins isQuote => ?_⟩
      · simp [beginsWord, notOpen, notClose, notComment, notDouble, notSingle, notEnd, notBlank]
      · rw [List.dropWhile_cons_of_neg notBlank] at begins
        rcases List.cons.inj begins with ⟨rfl, _⟩
        rcases isQuote with isDouble | isSingle
        · exact notDouble isDouble
        · exact notSingle isSingle

theorem quoted_printable_iff {quote : Char} {inner word : Text}
    (quoted : Quoted quote inner word) : Printable word <-> quote ∉ inner := by
  constructor
  · rintro (⟨c, rest, wordIs, begins, _⟩ | ⟨quote', inner', ⟨_, wordIs, _⟩, noQuote⟩)
    · rw [quoted.2.1] at wordIs
      rcases List.cons.inj wordIs with ⟨rfl, _⟩
      rcases quoted.1 with rfl | rfl <;> cases begins
    · rw [quoted.2.1] at wordIs
      rcases List.cons.inj wordIs with ⟨rfl, restIs⟩
      rw [List.append_cancel_right restIs]
      exact noQuote
  · exact fun noQuote => Or.inr ⟨quote, inner, quoted, noQuote⟩

/-- The quoted word that begins a text, if there is one, ends at the first quote. -/
def PlainQuote (text : Text) : Prop :=
  forall quote body, text.dropWhile isBlank = quote :: body -> IsQuote quote ->
    ClosesFirst quote body

theorem word_known (text : Text) (isNormal : (parseToken text).1.type = .normal) :
    Printable (parseToken text).1.value ∨ Torn (parseToken text).1.value := by
  rcases parseToken_word text isNormal with ⟨bare, _⟩ | ⟨quote, body, inner, _, quoted, _⟩
  · exact Or.inl (Or.inl bare)
  · by_cases inside : quote ∈ inner
    · exact Or.inr ⟨quote, inner, quoted, inside⟩
    · exact Or.inl (Or.inr ⟨quote, inner, quoted, inside⟩)

theorem word_printable_iff {text : Text} (isNormal : (parseToken text).1.type = .normal) :
    Printable (parseToken text).1.value <-> PlainQuote text := by
  rcases parseToken_word text isNormal with ⟨bare, unquoted⟩ | ⟨quote, body, inner, begins, quoted, member⟩
  · exact ⟨fun _ quote body begins isQuote => absurd isQuote (unquoted quote body begins),
      fun _ => Or.inl bare⟩
  · rw [quoted_printable_iff quoted, member, not_not, PlainQuote]
    constructor
    · intro closes quote' body' begins' _
      rw [begins] at begins'
      rcases List.cons.inj begins' with ⟨rfl, rfl⟩
      exact closes
    · exact fun plain => plain quote body begins quoted.1

theorem parseToken_dropWhile (text : Text) :
    parseToken (text.dropWhile isBlank) = parseToken text := by
  induction text with
  | nil => rfl
  | cons c text inductionHypothesis =>
      by_cases blank : isBlank c = true
      · rw [List.dropWhile_cons_of_pos blank, inductionHypothesis, parseToken_blank blank]
      · rw [List.dropWhile_cons_of_neg blank]

/-- The words of a text without errors can be printed if and only if all its
quoted words end at the first quote. -/
theorem words_printable_iff {text : Text}
    (noError : forall token, token ∈ tokens text -> token.type ≠ .error) :
    (forall word, (⟨.normal, word⟩ : Token) ∈ tokens text -> Printable word) <->
      forall rest, Boundary text rest -> PlainQuote rest := by
  constructor
  · intro printable rest boundary
    have isToken := (mem_tokens_iff text _).mpr ⟨rest, boundary, rfl⟩
    intro quote body begins isQuote
    have isNormal : (parseToken rest).1.type = .normal := by
      have notError := noError _ isToken
      rw [← parseToken_dropWhile, begins, parseToken_quote isQuote] at notError ⊢
      exact (quotedState_type quote [quote] body).resolve_right notError
    have wordIs : (parseToken rest).1 = ⟨.normal, (parseToken rest).1.value⟩ := by
      rw [← isNormal]
    rw [wordIs] at isToken
    exact (word_printable_iff isNormal).mp (printable _ isToken) quote body begins isQuote
  · intro plain word isWord
    rcases (mem_tokens_iff text _).mp isWord with ⟨rest, boundary, isRead⟩
    have isNormal : (parseToken rest).1.type = .normal := by rw [isRead]
    have printable := (word_printable_iff isNormal).mpr (plain rest boundary)
    rwa [isRead] at printable

/-! ## The round trip -/

theorem withoutComments_flatten (config : NginxConfig) (sequence : List Token) :
    withoutComments (config.flatten ++ sequence) = config.flatten ++ withoutComments sequence := by
  have wordsKept : forall words : List Text,
      withoutComments (words.map (Token.mk .normal)) = words.map (Token.mk .normal) := by
    intro words
    refine List.filter_eq_self.mpr (fun token isWord => ?_)
    rcases List.mem_map.mp isWord with ⟨word, _, rfl⟩
    rfl
  have append : forall first second : List Token,
      withoutComments (first ++ second) = withoutComments first ++ withoutComments second :=
    fun first second => List.filter_append first second
  have kept : withoutComments config.flatten = config.flatten := by
    induction config with
    | empty => rfl
    | simple words next inductionHypothesis =>
        have ender : withoutComments (⟨.statementEnd, [';']⟩ :: next.flatten) =
            ⟨.statementEnd, [';']⟩ :: withoutComments next.flatten := rfl
        rw [NginxConfig.flatten, append, wordsKept, ender, inductionHypothesis]
    | block words child next childHypothesis nextHypothesis =>
        have opening : withoutComments (⟨.startBlock, ['{']⟩ ::
              (child.flatten ++ ⟨.endBlock, ['}']⟩ :: next.flatten)) =
            ⟨.startBlock, ['{']⟩ ::
              withoutComments (child.flatten ++ ⟨.endBlock, ['}']⟩ :: next.flatten) := rfl
        have closing : withoutComments (⟨.endBlock, ['}']⟩ :: next.flatten) =
            ⟨.endBlock, ['}']⟩ :: withoutComments next.flatten := rfl
        rw [NginxConfig.flatten, append, wordsKept, opening, append, childHypothesis, closing,
          nextHypothesis]
  rw [append, kept]

/-- A tree with printable words is printed and parsed again. -/
theorem parse_toString_of_printable {config : NginxConfig} (some : config ≠ .empty)
    (nonempty : config.AllStatements (fun words => words ≠ []))
    (printable : config.AllStatements (fun words => forall word, word ∈ words -> Printable word)) :
    parse (config.toString 0) = .ok (true, config) := by
  have readBack := tokens_toString nonempty printable 0 []
  rw [List.append_nil] at readBack
  refine parse_of_flatten [] ?_ some nonempty
  rw [readBack, withoutComments_flatten]
  rfl

/-- An accepted text with balanced braces can be printed and parsed again if and
only if each of its quoted words ends at the first quote of its kind. -/
theorem reparse_iff (text : Text) {config : NginxConfig}
    (accepted : parse text = .ok (true, config)) (valid : Valid text) :
    parse (config.toString 0) = .ok (true, config) <->
      forall rest, Boundary text rest -> PlainQuote rest := by
  rcases parse_of_valid valid with ⟨built, final, tokensAre, some, nonempty, parsed⟩
  obtain rfl : built = config := (Prod.mk.inj (Except.ok.inj (parsed.symm.trans accepted))).2
  have isWord : forall word, (⟨.normal, word⟩ : Token) ∈ built.flatten <->
      (⟨.normal, word⟩ : Token) ∈ tokens text := by
    intro word
    have inRead : (⟨.normal, word⟩ : Token) ∈ withoutComments (tokens text) <->
        (⟨.normal, word⟩ : Token) ∈ tokens text := by simp [withoutComments]
    rw [← inRead, tokensAre]
    simp
  have printable : built.AllStatements (fun words => forall word, word ∈ words -> Printable word) <->
      forall rest, Boundary text rest -> PlainQuote rest := by
    rw [NginxConfig.allStatements_iff_flatten,
      ← words_printable_iff (fun token => no_error_of_accepted accepted)]
    exact forall_congr' (fun word => imp_congr_left (isWord word))
  rw [← printable]
  constructor
  · intro parsedAgain
    by_contra torn
    have known : built.AllStatements (fun words =>
        forall word, word ∈ words -> Printable word ∨ Torn word) := by
      rw [NginxConfig.allStatements_iff_flatten (fun word => Printable word ∨ Torn word)]
      intro word isFlat
      rcases (mem_tokens_iff text _).mp ((isWord word).mp isFlat) with ⟨rest, _, isRead⟩
      have wordKnown := word_known rest (by rw [isRead])
      rwa [isRead] at wordKnown
    rcases tokens_toString_torn nonempty known torn 0 [] with ⟨token, isToken, isError⟩
    rw [List.append_nil] at isToken
    exact no_error_of_accepted parsedAgain isToken isError
  · exact parse_toString_of_printable some nonempty

/-- A nonempty bare word without white space, `;` and braces, which does not begin
like a comment or a quoted word; or a quoted word without its own quote and a
backslash inside. -/
def PlainWord (word : Text) : Prop :=
  (word ≠ [] ∧ (forall c, c ∈ word -> endsWord c = false ∧ isBlank c = false) ∧
    forall c, word.head? = some c -> c ≠ '#' ∧ ¬IsQuote c) ∨
  Exists fun quote : Char => Exists fun inner : Text =>
    IsQuote quote ∧ word = quote :: (inner ++ [quote]) ∧ quote ∉ inner ∧ '\\' ∉ inner

/-- Without backslashes and quotes, all neighbours are tidy. -/
theorem tidy_of_plain {quote : Char} {inner : Text} (noQuote : quote ∉ inner)
    (noBackslash : '\\' ∉ inner) : inner.IsChain (Tidy quote) := by
  apply List.Pairwise.isChain
  apply List.Pairwise.imp_of_mem (R := fun _ _ => True)
  · intro first second isFirst _ _
    constructor
    · intro same
      exact absurd (same ▸ isFirst) noBackslash
    · intro same
      exact absurd (same ▸ isFirst) noQuote
  · exact List.pairwise_of_forall (fun _ _ => trivial)

theorem printable_of_plainWord {word : Text} (plain : PlainWord word) : Printable word := by
  rcases plain with ⟨nonempty, inside, begins⟩ | ⟨quote, inner, isQuote, rfl, noQuote, noBackslash⟩
  · rcases List.exists_cons_of_ne_nil nonempty with ⟨c, rest, rfl⟩
    refine Or.inl ⟨c, rest, rfl, ?_, fun d later => (inside d (List.mem_cons_of_mem c later)).1⟩
    have first := inside c List.mem_cons_self
    have notSpecial := begins c rfl
    simp only [endsWord, Bool.or_eq_false_iff, beq_eq_false_iff_ne] at first
    simp only [IsQuote, not_or] at notSpecial
    simp [beginsWord, first, notSpecial]
  · exact Or.inr ⟨quote, inner, ⟨isQuote, rfl, tidy_of_plain noQuote noBackslash⟩, noQuote⟩

theorem NginxConfig.AllStatements.imp {property property' : List Text -> Prop}
    (implies : forall words, property words -> property' words) {config : NginxConfig}
    (all : config.AllStatements property) : config.AllStatements property' := by
  induction config with
  | empty => exact trivial
  | simple words next inductionHypothesis => exact ⟨implies _ all.1, inductionHypothesis all.2⟩
  | block words child next childHypothesis nextHypothesis =>
      exact ⟨implies _ all.1, childHypothesis all.2.1, nextHypothesis all.2.2⟩

/-- A printed configuration with plain words parses back to itself. -/
theorem parse_toString {config : NginxConfig} (some : config ≠ .empty)
    (plain : config.AllStatements (fun words =>
      words ≠ [] ∧ forall word, word ∈ words -> PlainWord word)) :
    parse (config.toString 0) = .ok (true, config) :=
  parse_toString_of_printable some (plain.imp fun _ both => both.1)
    (plain.imp fun _ both word isWord => printable_of_plainWord (both.2 word isWord))

theorem emptyBlock_parsedBack :
    parse ((NginxConfig.block ["a".toList, "\"b; 'c\n\"".toList] .empty
        (.simple ["d'".toList] .empty)).toString 0) =
      .ok (true, .block ["a".toList, "\"b; 'c\n\"".toList] .empty
        (.simple ["d'".toList] .empty)) := by
  refine parse_toString (by simp) ⟨⟨by simp, ?_⟩, trivial, ⟨by simp, ?_⟩, trivial⟩
  · intro word isWord
    simp only [List.mem_cons, List.not_mem_nil, or_false] at isWord
    rcases isWord with rfl | rfl
    · exact Or.inl ⟨by decide, List.all_iff_forall_prop.mp (by decide), by simp [IsQuote]⟩
    · exact Or.inr ⟨'"', "b; 'c\n".toList, Or.inl rfl, rfl, by decide, by decide⟩
  · intro word isWord
    rw [List.mem_singleton.mp isWord]
    exact Or.inl ⟨by decide, List.all_iff_forall_prop.mp (by decide), by simp [IsQuote]⟩

/-- A text with a quoted word and a block is printed and parsed again. -/
theorem quotedBlock_reparsed :
    parse ((NginxConfig.block ["a".toList, "\"b \x7b\"".toList] (.simple ["c".toList] .empty)
        .empty).toString 0) =
      .ok (true, .block ["a".toList, "\"b \x7b\"".toList] (.simple ["c".toList] .empty) .empty) := by
  have sequence : tokens "a \"b \x7b\" \x7b c; \x7d".toList =
      [⟨.normal, "a".toList⟩, ⟨.normal, "\"b \x7b\"".toList⟩, ⟨.startBlock, ['{']⟩,
        ⟨.normal, "c".toList⟩, ⟨.statementEnd, ";".toList⟩, ⟨.endBlock, ['}']⟩,
        ⟨.eof, []⟩] := by decide
  refine (reparse_iff "a \"b \x7b\" \x7b c; \x7d".toList (by decide)
    ((valid_iff_balanced _).mpr (by decide))).mpr ((words_printable_iff ?_).mp ?_)
  · rw [sequence]
    decide
  · intro word isWord
    rw [sequence] at isWord
    simp only [List.mem_cons, Token.mk.injEq, reduceCtorEq, false_and, true_and, false_or,
      List.not_mem_nil, or_false] at isWord
    rcases isWord with rfl | rfl | rfl
    · exact Or.inl ⟨'a', [], rfl, rfl, by simp⟩
    · exact Or.inr ⟨'"', "b \x7b".toList, ⟨Or.inl rfl, rfl, by decide⟩, by decide⟩
    · exact Or.inl ⟨'c', [], rfl, rfl, by simp⟩

/-- The quote of an escaped quote is printed without its backslash. -/
theorem escapedQuote_refused :
    parse "\"foo\\\"bar\" ;".toList = .ok (true, .simple ["\"foo\"bar\"".toList] .empty) ∧
      Valid "\"foo\\\"bar\" ;".toList ∧
      parse ((NginxConfig.simple ["\"foo\"bar\"".toList] .empty).toString 0) =
        .ok (false, .empty) := by
  rw [valid_iff_balanced]
  decide

end Config
end Webserver
