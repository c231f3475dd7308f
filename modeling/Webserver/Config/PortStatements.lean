import Webserver.Config.ExtractPort
import Webserver.Config.LocationReading

namespace Webserver
namespace Config

/-!
# The ports of a parsed tree

What `ExtractPort` is meant to find is the first statement `listen N` or `port N` of
the tree.  The loop over the characters knows no statements and no words: it takes a
keyword at the end of any word, and it wants a space behind it.  Only where a number
follows does this matter.
-/

/-! ## Reading the tree -/

/-- `listen` or `port`, the first letter in either case. -/
def PortWord (word : Text) : Prop :=
  word ∈ ["listen".toList, "Listen".toList, "port".toList, "Port".toList]

instance (word : Text) : Decidable (PortWord word) := inferInstanceAs (Decidable (_ ∈ _))

/-- A statement that begins with one of the two words. -/
def PortStatement (words : List Text) : Prop :=
  Exists fun keyword : Text => words.head? = some keyword ∧ PortWord keyword

instance : DecidablePred PortStatement := fun words =>
  match words with
  | [] => isFalse (by rintro ⟨_, none, _⟩; cases none)
  | keyword :: others => decidable_of_iff (PortWord keyword)
      ⟨fun isPort => ⟨keyword, rfl, isPort⟩, by rintro ⟨_, ⟨⟩, isPort⟩; exact isPort⟩

namespace NginxConfig

/-- The words of the statements in document order, at every depth. -/
def headers : NginxConfig -> List (List Text)
  | empty => []
  | simple words next => words :: next.headers
  | block words child next => words :: (child.headers ++ next.headers)

/-- The statements that begin with `listen` or `port`. -/
def portStatements (config : NginxConfig) : List (List Text) :=
  config.headers.filter PortStatement

end NginxConfig

/-! ## Reading the text -/

/-- The word ends in `listen` or `port`. -/
def PortEnding (word : Text) : Prop :=
  Exists fun keyword : Text => PortWord keyword ∧ keyword <:+ word

instance (word : Text) : Decidable (PortEnding word) :=
  inferInstanceAs (Decidable (Exists fun keyword : Text =>
    keyword ∈ ["listen".toList, "Listen".toList, "port".toList, "Port".toList] ∧ keyword <:+ word))

/-- What is left of a text at some call of `ParseToken`, and whether a statement begins
there. -/
inductive Place : Bool -> Text -> Bool -> Text -> Prop
  | here (begins : Bool) (text : Text) : Place begins text begins text
  | later {start : Bool} {text : Text} {begins : Bool} {rest : Text}
      (goesOn : (parseToken text).1.last = false)
      (onward : Place ((parseToken text).1.type != .normal) (parseToken text).2 begins rest) :
      Place start text begins rest

/-- If the next token is a word that ends in `listen` or `port`, and a number follows, then
a space comes right behind it exactly if it is one of the two words and begins a statement. -/
def PlainPlace (begins : Bool) (text : Text) : Prop :=
  (parseToken text).1.type = .normal -> PortEnding (parseToken text).1.value ->
    numberBehind (parseToken text).2 ≠ [] ->
      ((parseToken text).2.head? = some ' ' <->
        begins = true ∧ PortWord (parseToken text).1.value)

instance (begins : Bool) (text : Text) : Decidable (PlainPlace begins text) :=
  inferInstanceAs (Decidable (_ -> _))

/-- At every word of the text the scan takes what begins a statement, and nothing else. -/
def PlainFrom (start : Bool) (text : Text) : Prop :=
  forall (begins : Bool) (rest : Text), Place start text begins rest -> PlainPlace begins rest

theorem PlainFrom.next {start : Bool} {text after : Text} {token : Token}
    (plain : PlainFrom start text) (isRead : parseToken text = (token, after))
    (goesOn : token.last = false) : PlainFrom (token.type != .normal) after := by
  intro begins rest place
  refine plain begins rest (.later (by rw [isRead]; exact goesOn) ?_)
  rw [isRead]
  exact place

theorem PlainFrom.uncons {start : Bool} {text : Text} (first : PlainPlace start text)
    (others : (parseToken text).1.last = false ->
      PlainFrom ((parseToken text).1.type != .normal) (parseToken text).2) :
    PlainFrom start text := by
  intro begins rest place
  cases place with
  | here _ _ => exact first
  | later goesOn onward => exact others goesOn begins rest onward

/-- What a place says of a word that is read there. -/
theorem PlainFrom.word {start : Bool} {text word after : Text} {ender : Char}
    (plain : PlainFrom start text) (isRead : parseToken text = (⟨.normal, word⟩, ender :: after))
    (ending : PortEnding word) (number : numberBehind (ender :: after) ≠ []) :
    ender = ' ' <-> start = true ∧ PortWord word := by
  have first := plain start text (.here start text)
  rw [PlainPlace, isRead] at first
  simpa using first rfl ending number

theorem numberBehind_blanks {blanks : Text} (allBlank : AllBlank blanks) (text : Text) :
    numberBehind (blanks ++ text) = numberBehind text := by
  rw [numberBehind, List.dropWhile_append_of_pos (LocationScan.spaces_of_blanks allBlank),
    numberBehind]

/-! ## One word -/

/-- The characters that the scan expects behind a letter are the rest of a keyword and a
space. -/
theorem portToken_keyword {c : Char} {token : Text} (isToken : portToken c = some token) :
    Exists fun keyword : Text =>
      token = keyword ++ [' '] ∧ PortWord (c :: keyword) ∧ keyword.any endsWord = false := by
  rw [portToken] at isToken
  split at isToken
  · rename_i letter
    obtain rfl := Option.some.inj isToken
    exact ⟨"isten".toList, rfl, by rcases letter with rfl | rfl <;> decide, by decide⟩
  split at isToken
  · rename_i letter
    obtain rfl := Option.some.inj isToken
    exact ⟨"ort".toList, rfl, by rcases letter with rfl | rfl <;> decide, by decide⟩
  · cases isToken

/-- A number that the scan finds from a character of a word on stands behind the word, and
the rest of the word is a keyword with a space behind it. -/
theorem statedPort_inWord {c : Char} {word after digits : Text} {ender : Char}
    (wordPlain : forall d, d ∈ word -> endsWord d = false) (ends : endsWord ender = true)
    (stated : statedPort (c :: (word ++ ender :: after)) = some digits) :
    PortWord (c :: word) ∧ ender = ' ' ∧ numberBehind (ender :: after) ≠ [] := by
  cases isToken : portToken c with
  | none =>
      rw [statedPort_of_none isToken] at stated
      cases stated
  | some token =>
      rcases portToken_keyword isToken with ⟨keyword, rfl, isWord, keywordPlain⟩
      by_cases begins : keyword ++ [' '] <+: word ++ ender :: after
      · obtain rfl := word_of_prefix keywordPlain wordPlain ends begins
        have spaced : ender = ' ' := by
          have behind := (List.prefix_append_right_inj word).mp begins
          exact (List.cons_prefix_cons.mp behind).1.symm
        subst spaced
        rw [List.append_cons, statedPort_of_some isToken] at stated
        refine ⟨isWord, rfl, fun nothing => ?_⟩
        have space : numberBehind (' ' :: after) = numberBehind after := rfl
        rw [← space, nothing, if_neg (fun filled => filled rfl)] at stated
        cases stated
      · rw [statedPort_of_other isToken begins] at stated
        cases stated

/-- A word is passed if it is none that the scan takes. -/
theorem firstPort_word {word after : Text} {ender : Char}
    (wordPlain : forall d, d ∈ word -> endsWord d = false) (ends : endsWord ender = true)
    (quiet : PortEnding word -> numberBehind (ender :: after) ≠ [] -> ender ≠ ' ') :
    firstPort (word ++ ender :: after) = firstPort (ender :: after) := by
  induction word with
  | nil => rfl
  | cons c word inductionHypothesis =>
      have restPlain : forall d, d ∈ word -> endsWord d = false :=
        fun d inside => wordPlain d (List.mem_cons_of_mem c inside)
      have nothing : statedPort (c :: (word ++ ender :: after)) = none := by
        rw [Option.eq_none_iff_forall_ne_some]
        intro digits stated
        rcases statedPort_inWord restPlain ends stated with ⟨isWord, spaced, number⟩
        exact quiet ⟨c :: word, isWord, List.suffix_rfl⟩ number spaced
      rw [List.cons_append, firstPort, nothing]
      apply inductionHypothesis restPlain
      rintro ⟨keyword, isWord, atEnd⟩
      exact quiet ⟨keyword, isWord, atEnd.trans (List.suffix_cons c word)⟩

/-- No number stands behind the last word of a file. -/
theorem firstPort_lastWord {word : Text} (wordPlain : forall d, d ∈ word -> endsWord d = false) :
    firstPort word = none := by
  induction word with
  | nil => rfl
  | cons c word inductionHypothesis =>
      have restPlain : forall d, d ∈ word -> endsWord d = false :=
        fun d inside => wordPlain d (List.mem_cons_of_mem c inside)
      have nothing : statedPort (c :: word) = none := by
        cases isToken : portToken c with
        | none => exact statedPort_of_none isToken word
        | some token =>
            rcases portToken_keyword isToken with ⟨keyword, rfl, _⟩
            refine statedPort_of_other isToken (fun begins => ?_)
            have space : ' ' ∈ word := begins.subset (by simp)
            cases restPlain ' ' space
      rw [firstPort, nothing]
      exact inductionHypothesis restPlain

theorem firstPort_blanks {blanks : Text} (allBlank : AllBlank blanks) (rest : Text) :
    firstPort (blanks ++ rest) = firstPort rest :=
  firstPort_skip (fun c inside => portToken_space (LocationScan.spaces_of_blanks allBlank c inside))
    rest

theorem portWord_cases {word : Text} (isWord : PortWord word) :
    Exists fun c : Char => Exists fun keyword : Text =>
      word = c :: keyword ∧ portToken c = some (keyword ++ [' ']) := by
  simp only [PortWord, List.mem_cons, List.not_mem_nil, or_false] at isWord
  rcases isWord with rfl | rfl | rfl | rfl
  · exact ⟨'l', "isten".toList, rfl, rfl⟩
  · exact ⟨'L', "isten".toList, rfl, rfl⟩
  · exact ⟨'p', "ort".toList, rfl, rfl⟩
  · exact ⟨'P', "ort".toList, rfl, rfl⟩

/-- A keyword with a space behind it and a number is what the scan looks for. -/
theorem firstPort_keyword {keyword : Text} (isWord : PortWord keyword) {after : Text}
    (number : numberBehind after ≠ []) :
    firstPort (keyword ++ ' ' :: after) = some (numberBehind after) := by
  rcases portWord_cases isWord with ⟨c, rest, rfl, isToken⟩
  have stated : statedPort (c :: (rest ++ ' ' :: after)) = some (numberBehind after) := by
    rw [List.append_cons, statedPort_of_some isToken]
    exact if_pos number
  rw [List.cons_append, firstPort, stated]

/-! ## Statements -/

/-- The words of a statement up to what ends it, where the scan takes none of them. -/
theorem firstPort_words {words : List Text} {start : Bool} {text : Text} (unquoted : Unquoted text)
    (plain : PlainFrom start text)
    (notPort : start = true -> forall keyword, words.head? = some keyword -> ¬PortWord keyword)
    {others : List Token} (tokensAre : tokens text = words.map (Token.mk .normal) ++ others) :
    Exists fun text' : Text => Exists fun start' : Bool =>
      Unquoted text' ∧ tokens text' = others ∧ PlainFrom start' text' ∧
        firstPort text = firstPort text' := by
  induction words generalizing start text with
  | nil => exact ⟨text, start, unquoted, tokensAre, plain, rfl⟩
  | cons word words inductionHypothesis =>
      rcases word_lexeme unquoted tokensAre with
        ⟨blanks, ender, after, textIs, allBlank, bare, ends, isRead, afterAre⟩
      have quiet : PortEnding word -> numberBehind (ender :: after) ≠ [] -> ender ≠ ' ' := by
        intro ending number spaced
        rcases (plain.word isRead ending number).mp spaced with ⟨begins, isWord⟩
        exact notPort begins word rfl isWord
      have passed : firstPort text = firstPort (ender :: after) := by
        rw [textIs, firstPort_blanks allBlank,
          firstPort_word (LocationScan.bare_plain bare) ends quiet]
      have afterUnquoted := unquoted.of_boundary (.next isRead rfl)
      rcases inductionHypothesis afterUnquoted (plain.next isRead rfl)
          (fun impossible => by cases impossible) afterAre with
        ⟨text', start', unquoted', othersAre, plain', onward⟩
      exact ⟨text', start', unquoted', othersAre, plain', passed.trans onward⟩

/-- A symbol ends a statement or a block. -/
theorem firstPort_symbol {text : Text} (unquoted : Unquoted text) {start : Bool}
    (plain : PlainFrom start text) {type : TokenType} {symbol : Char} {others : List Token}
    (isSymbol : type = .statementEnd ∨ type = .startBlock ∨ type = .endBlock)
    (noToken : portToken symbol = none)
    (tokensAre : tokens text = ⟨type, [symbol]⟩ :: others) :
    Exists fun text' : Text =>
      Unquoted text' ∧ tokens text' = others ∧ PlainFrom true text' ∧
        firstPort text = firstPort text' := by
  have goesOn : (Token.mk type [symbol]).last = false := by
    rcases isSymbol with rfl | rfl | rfl <;> rfl
  have begins : (type != .normal) = true := by
    rcases isSymbol with rfl | rfl | rfl <;> rfl
  rcases symbol_lexeme unquoted tokensAre goesOn with
    ⟨blanks, after, textIs, allBlank, isRead, othersAre⟩
  refine ⟨after, unquoted.of_boundary (.next isRead goesOn), othersAre, ?_, ?_⟩
  · have onward := plain.next isRead goesOn
    rwa [begins] at onward
  · rw [textIs, firstPort_blanks allBlank]
    exact firstPort_skip (List.forall_mem_singleton.mpr noToken) after

/-- A statement up to its end or up to its block. -/
theorem firstPort_statement {words : List Text} {text : Text} (unquoted : Unquoted text)
    (plain : PlainFrom true text) (notPort : ¬PortStatement words) {type : TokenType}
    {symbol : Char} {others : List Token}
    (isSymbol : type = .statementEnd ∨ type = .startBlock ∨ type = .endBlock)
    (noToken : portToken symbol = none)
    (tokensAre : tokens text = words.map (Token.mk .normal) ++ ⟨type, [symbol]⟩ :: others) :
    Exists fun text' : Text =>
      Unquoted text' ∧ tokens text' = others ∧ PlainFrom true text' ∧
        firstPort text = firstPort text' := by
  rcases firstPort_words unquoted plain (fun _ keyword first isWord =>
      notPort ⟨keyword, first, isWord⟩) tokensAre with
    ⟨middle, start, middleUnquoted, endAre, middlePlain, passed⟩
  rcases firstPort_symbol middleUnquoted middlePlain isSymbol noToken endAre with
    ⟨text', unquoted', othersAre, plain', finished⟩
  exact ⟨text', unquoted', othersAre, plain', passed.trans finished⟩

/-- The statements of a tree without a port statement are passed. -/
theorem firstPort_config {config : NginxConfig} (none : config.portStatements = [])
    {text : Text} (unquoted : Unquoted text) (plain : PlainFrom true text) {more : List Token}
    (tokensAre : tokens text = config.flatten ++ more) :
    Exists fun text' : Text =>
      Unquoted text' ∧ tokens text' = more ∧ PlainFrom true text' ∧
        firstPort text = firstPort text' := by
  induction config generalizing text more with
  | empty => exact ⟨text, unquoted, tokensAre, plain, rfl⟩
  | simple words next inductionHypothesis =>
      rw [NginxConfig.flatten, List.append_assoc, List.cons_append] at tokensAre
      rw [NginxConfig.portStatements, NginxConfig.headers, List.filter_eq_nil_iff,
        List.forall_mem_cons] at none
      rcases firstPort_statement unquoted plain (by simpa using none.1) (Or.inl rfl) rfl tokensAre
        with ⟨middle, middleUnquoted, nextAre, middlePlain, passed⟩
      rcases inductionHypothesis (List.filter_eq_nil_iff.mpr none.2) middleUnquoted middlePlain
          nextAre with ⟨text', unquoted', moreAre, plain', onward⟩
      exact ⟨text', unquoted', moreAre, plain', passed.trans onward⟩
  | block words child next childHypothesis nextHypothesis =>
      rw [NginxConfig.flatten, List.append_assoc, List.cons_append, List.append_assoc,
        List.cons_append] at tokensAre
      rw [NginxConfig.portStatements, NginxConfig.headers, List.filter_eq_nil_iff,
        List.forall_mem_cons, List.forall_mem_append] at none
      rcases firstPort_statement unquoted plain (by simpa using none.1) (Or.inr (Or.inl rfl)) rfl
          tokensAre with ⟨body, bodyUnquoted, bodyAre, bodyPlain, opened⟩
      rcases childHypothesis (List.filter_eq_nil_iff.mpr none.2.1) bodyUnquoted bodyPlain bodyAre
        with ⟨closing, closingUnquoted, closingAre, closingPlain, inside⟩
      rcases firstPort_symbol closingUnquoted closingPlain (Or.inr (Or.inr rfl)) rfl closingAre
        with ⟨after, afterUnquoted, nextAre, afterPlain, closed⟩
      rcases nextHypothesis (List.filter_eq_nil_iff.mpr none.2.2) afterUnquoted afterPlain nextAre
        with ⟨text', unquoted', moreAre, plain', onward⟩
      exact ⟨text', unquoted', moreAre, plain',
        opened.trans (inside.trans (closed.trans onward))⟩

/-- A next word of digits is the number that comes. -/
theorem numberBehind_tokens {text : Text} (unquoted : Unquoted text) {number : Text}
    (nonempty : number ≠ []) (digital : forall d, d ∈ number -> d.isDigit = true)
    {others : List Token} (tokensAre : tokens text = ⟨.normal, number⟩ :: others) :
    numberBehind text = number := by
  rcases word_lexeme unquoted tokensAre with ⟨blanks, ender, after, rfl, allBlank, _, ends, _, _⟩
  have notDigit : ender.isDigit = false := by
    simp only [endsWord, Bool.or_eq_true, beq_iff_eq] at ends
    rcases ends with ((((rfl | rfl) | rfl) | rfl) | rfl) | rfl <;> rfl
  have notSpace : (number ++ ender :: after).dropWhile isspace = number ++ ender :: after := by
    rcases List.exists_cons_of_ne_nil nonempty with ⟨d, rest, rfl⟩
    have digit := digital d List.mem_cons_self
    have alphanum : d.isAlphanum = true := by simp [Char.isAlphanum, digit]
    rw [List.cons_append,
      List.dropWhile_cons_of_neg (by simp [LocationScan.not_space_of_alphanum alphanum])]
  rw [numberBehind_blanks allBlank, numberBehind, notSpace, List.takeWhile_append_of_pos digital,
    List.takeWhile_cons_of_neg (by simp [notDigit]), List.append_nil]

/-- A port statement with a number as its second word is found. -/
theorem firstPort_leading {text : Text} (unquoted : Unquoted text) (plain : PlainFrom true text)
    {keyword number : Text} (isWord : PortWord keyword) (nonempty : number ≠ [])
    (digital : forall d, d ∈ number -> d.isDigit = true) {others : List Token}
    (tokensAre : tokens text = ⟨.normal, keyword⟩ :: ⟨.normal, number⟩ :: others) :
    firstPort text = some number := by
  rcases word_lexeme unquoted tokensAre with
    ⟨blanks, ender, after, textIs, allBlank, _, ends, isRead, afterAre⟩
  have behind := numberBehind_tokens (unquoted.of_boundary (.next isRead rfl)) nonempty digital
    afterAre
  have spaced : ender = ' ' := (plain.word isRead ⟨keyword, isWord, List.suffix_rfl⟩
    (by rw [behind]; exact nonempty)).mpr ⟨rfl, isWord⟩
  subst spaced
  rw [textIs, firstPort_blanks allBlank]
  have inside : numberBehind after = number := behind
  rw [firstPort_keyword isWord (by rw [inside]; exact nonempty), inside]

theorem firstPort_first {words : List Text} {keyword number : Text} {more : List Text}
    (isPort : PortStatement words) (first : some words = some (keyword :: number :: more))
    (nonempty : number ≠ []) (digital : forall d, d ∈ number -> d.isDigit = true)
    {text : Text} (unquoted : Unquoted text) (plain : PlainFrom true text) {others : List Token}
    (tokensAre : tokens text = words.map (Token.mk .normal) ++ others) :
    firstPort text = some number := by
  obtain rfl := Option.some.inj first
  rcases isPort with ⟨_, ⟨⟩, isWord⟩
  exact firstPort_leading unquoted plain isWord nonempty digital tokensAre

/-- The first port statement of a tree is found, if its second word is a number. -/
theorem firstPort_found {config : NginxConfig} {keyword number : Text} {more : List Text}
    (first : config.portStatements.head? = some (keyword :: number :: more))
    (nonempty : number ≠ []) (digital : forall d, d ∈ number -> d.isDigit = true)
    {text : Text} (unquoted : Unquoted text) (plain : PlainFrom true text) {others : List Token}
    (tokensAre : tokens text = config.flatten ++ others) : firstPort text = some number := by
  induction config generalizing text others with
  | empty => cases first
  | simple words next inductionHypothesis =>
      rw [NginxConfig.flatten, List.append_assoc, List.cons_append] at tokensAre
      rw [NginxConfig.portStatements, NginxConfig.headers] at first
      by_cases isPort : PortStatement words
      · rw [List.filter_cons_of_pos (by simpa using isPort), List.head?_cons] at first
        exact firstPort_first isPort first nonempty digital unquoted plain tokensAre
      · rw [List.filter_cons_of_neg (by simpa using isPort)] at first
        rcases firstPort_statement unquoted plain isPort (Or.inl rfl) rfl tokensAre with
          ⟨middle, middleUnquoted, nextAre, middlePlain, passed⟩
        rw [passed]
        exact inductionHypothesis first middleUnquoted middlePlain nextAre
  | block words child next childHypothesis nextHypothesis =>
      rw [NginxConfig.flatten, List.append_assoc, List.cons_append, List.append_assoc,
        List.cons_append] at tokensAre
      rw [NginxConfig.portStatements, NginxConfig.headers] at first
      by_cases isPort : PortStatement words
      · rw [List.filter_cons_of_pos (by simpa using isPort), List.head?_cons] at first
        exact firstPort_first isPort first nonempty digital unquoted plain tokensAre
      · rw [List.filter_cons_of_neg (by simpa using isPort), List.filter_append,
          ← NginxConfig.portStatements, ← NginxConfig.portStatements] at first
        rcases firstPort_statement unquoted plain isPort (Or.inr (Or.inl rfl)) rfl tokensAre with
          ⟨body, bodyUnquoted, bodyAre, bodyPlain, opened⟩
        rw [opened]
        cases inChild : child.portStatements with
        | cons header headers =>
            rw [inChild, List.cons_append, List.head?_cons] at first
            exact childHypothesis (by rw [inChild]; exact first) bodyUnquoted bodyPlain bodyAre
        | nil =>
            rw [inChild, List.nil_append] at first
            rcases firstPort_config inChild bodyUnquoted bodyPlain bodyAre with
              ⟨closing, closingUnquoted, closingAre, closingPlain, inside⟩
            rcases firstPort_symbol closingUnquoted closingPlain (Or.inr (Or.inr rfl)) rfl
                closingAre with ⟨after, afterUnquoted, nextAre, afterPlain, closed⟩
            rw [inside, closed]
            exact nextHypothesis first afterUnquoted afterPlain nextAre

/-! ## The function and the tree -/

/-- Without a port statement there is no number at all. -/
theorem firstPort_of_none {config : NginxConfig} (none : config.portStatements = [])
    {text : Text} (unquoted : Unquoted text) (plain : PlainFrom true text) {final : Text}
    (tokensAre : tokens text = config.flatten ++ [⟨.eof, final⟩]) : firstPort text = .none := by
  rcases firstPort_config none unquoted plain tokensAre with
    ⟨text', unquoted', finalAre, _, passed⟩
  rcases end_lexeme unquoted' finalAre with ⟨blanks, rfl, allBlank, finalIs⟩
  rw [passed, firstPort_blanks allBlank]
  rcases finalIs with rfl | bare
  · rfl
  · exact firstPort_lastWord (LocationScan.bare_plain bare)

/-- On a text where the scan takes exactly the words that begin a statement, the function
returns -1 if the tree has no port statement, and the port of the first one if it states
one. -/
theorem extractPort_plain {text : Text} {config : NginxConfig}
    (accepted : parse text = .ok (true, config))
    (balanced : BracesBalanced (significant (tokens text))) (unquoted : Unquoted text)
    (plain : PlainFrom true text) :
    (config.portStatements = [] ->
      forall limit, text.length < limit -> extractPort limit text = some (.ok (-1))) ∧
    forall (keyword : Text) (port : Nat) (more : List Text),
      config.portStatements.head? = some (keyword :: Nat.toDigits 10 port :: more) ->
      ValidPort port ->
      forall limit, text.length < limit -> extractPort limit text = some (.ok port) := by
  rcases parse_flattens accepted balanced with ⟨final, tokensAre⟩
  rw [withoutComments_tokens unquoted] at tokensAre
  constructor
  · intro none limit enough
    rw [extractPort_eq enough, firstPort_of_none none unquoted plain tokensAre]
    rfl
  · intro keyword port more first valid limit enough
    have digital : forall d, d ∈ Nat.toDigits 10 port -> d.isDigit = true :=
      fun d member => CInt.isDigit_of_mem_toDigits member
    rw [extractPort_eq enough,
      firstPort_found first Nat.toDigits_ne_nil digital unquoted plain tokensAre]
    have range : 0 < port ∧ port ≤ 2147483647 := by
      rcases valid with ⟨_, _⟩ | _ <;> omega
    rw [answer, if_neg (CInt.toDigits_head?_ne_zero range.1),
      checkPort_digits Nat.toDigits_ne_nil digital, Nat.ofDigitChars_toDigits (by decide) (by decide),
      if_pos range.2, if_pos valid]

/-- Behind a longer word the statement `Listen 8080` is found. -/
theorem secondStatement_extracted :
    extractPort 30 "export; Listen 8080;".toList = some (.ok 8080) := by
  have accepted : parse "export; Listen 8080;".toList = .ok (true, .simple ["export".toList]
      (.simple ["Listen".toList, "8080".toList] .empty)) := by decide
  have plain : PlainFrom true "export; Listen 8080;".toList :=
    .uncons (by decide) fun _ => .uncons (by decide) fun _ => .uncons (by decide) fun _ =>
      .uncons (by decide) fun _ => .uncons (by decide) fun _ => .uncons (by decide)
        fun goesOn => absurd goesOn (by decide)
  exact (extractPort_plain accepted (by decide) (by decide) plain).2 "Listen".toList 8080 []
    (by decide) (by decide) 30 (by decide)

/-- A word that ends in a keyword is taken for one. -/
theorem longerWord_extracted :
    parse "export 80;".toList = .ok (true, .simple ["export".toList, "80".toList] .empty) ∧
      BracesBalanced (significant (tokens "export 80;".toList)) ∧
      Unquoted "export 80;".toList ∧
      (NginxConfig.simple ["export".toList, "80".toList] .empty).portStatements = [] ∧
      extractPort 30 "export 80;".toList = some (.ok 80) := by
  decide

/-- An argument is taken for the keyword of a statement, and a keyword with a tab behind it
is not taken at all. -/
example : extractPort 30 "a port 80;".toList = some (.ok 80) ∧
    extractPort 30 "listen\t80;".toList = some (.ok (-1)) := by
  decide

end Config
end Webserver
