import Webserver.Config.LocationSteps
import Webserver.Config.Lexemes

namespace Webserver
namespace Config

/-!
# Words under `ExtractLocation`

The loop takes a keyword at the end of any word, if a space follows.  A word that
does not end in a keyword is passed without effect.  The keywords of directives
are heard only while the loop is live, that is, when the last brace was an opening
one and there was a path before.
-/

/-- A word ends in a keyword, whose first letter may be in either case. -/
def EndsIn (lower upper : Text) (word : Text) : Prop := lower <:+ word ∨ upper <:+ word

/-- A word that the loop passes without effect. -/
def Inert (heard : Bool) (word : Text) : Prop :=
  ¬EndsIn "location".toList "Location".toList word ∧
  (heard = true -> ¬EndsIn "root".toList "Root".toList word ∧
    ¬EndsIn "index".toList "Index".toList word)

/-- A text without comments and quotes, in which neither a tab nor a newline comes
right after a keyword. -/
structure Ordinary (text : Text) : Prop where
  unquoted : Unquoted text
  keywords : forall (rest keyword after : Text) (ender : Char), Boundary text rest ->
    keyword ∈ ["location".toList, "root".toList, "index".toList] ->
    parseToken rest = (⟨.normal, keyword⟩, ender :: after) -> ender ≠ '\t' ∧ ender ≠ '\n'

theorem Ordinary.of_boundary {text rest : Text} (ordinary : Ordinary text)
    (boundary : Boundary text rest) : Ordinary rest :=
  ⟨ordinary.unquoted.of_boundary boundary,
    fun later keyword after ender onward =>
      ordinary.keywords later keyword after ender (boundary.trans onward)⟩

theorem Ordinary.next {text after : Text} {token : Token} (ordinary : Ordinary text)
    (isRead : parseToken text = (token, after)) (goesOn : token.last = false) :
    Ordinary after :=
  ordinary.of_boundary (.next isRead goesOn)

/-- A blank in front makes no difference. -/
theorem Ordinary.of_blank {blank : Char} (isBlank : isBlank blank = true) {text : Text}
    (ordinary : Ordinary (blank :: text)) : Ordinary text := by
  refine ⟨ordinary.unquoted.of_append [blank],
    fun rest keyword after ender boundary isKeyword isRead => ?_⟩
  cases boundary with
  | here _ =>
      apply ordinary.keywords _ keyword after ender (.here _) isKeyword
      rw [parseToken_blank isBlank, isRead]
  | later goesOn onward =>
      rw [← parseToken_blank isBlank] at goesOn onward
      exact ordinary.keywords _ keyword after ender (.later goesOn onward) isKeyword isRead

theorem Inert.of_cons {heard : Bool} {c : Char} {word : Text} (inert : Inert heard (c :: word)) :
    Inert heard word := by
  have longer : forall keyword : Text, keyword <:+ word -> keyword <:+ c :: word :=
    fun keyword ends => ends.trans (List.suffix_cons c word)
  have kept : forall lower upper : Text, ¬EndsIn lower upper (c :: word) ->
      ¬EndsIn lower upper word :=
    fun lower upper absent ends => absent (ends.imp (longer lower) (longer upper))
  exact ⟨kept _ _ inert.1, fun isHeard =>
    ⟨kept _ _ (inert.2 isHeard).1, kept _ _ (inert.2 isHeard).2⟩⟩

/-- A keyword and a space in front of the text are a whole word. -/
theorem word_of_prefix {keyword word after : Text} {ender : Char}
    (keywordPlain : keyword.any endsWord = false)
    (wordPlain : forall d, d ∈ word -> endsWord d = false) (ends : endsWord ender = true)
    (begins : keyword ++ [' '] <+: word ++ ender :: after) : word = keyword := by
  rcases begins with ⟨rest, textIs⟩
  rw [List.append_assoc, List.singleton_append] at textIs
  have upTo : forall (front back : Text) (last : Char), (forall d, d ∈ front -> endsWord d = false) ->
      endsWord last = true ->
      (front ++ last :: back).takeWhile (fun d => !endsWord d) = front := by
    intro front back last plain lastEnds
    rw [List.takeWhile_append_of_pos (fun d inside => by simp [plain d inside]),
      List.takeWhile_cons_of_neg (by simp [lastEnds]), List.append_nil]
  have words := congrArg (List.takeWhile (fun d => !endsWord d)) textIs
  have noEnder : forall d, d ∈ keyword -> endsWord d = false :=
    fun d inside => Bool.eq_false_iff.mpr (List.any_eq_false.mp keywordPlain d inside)
  rw [upTo keyword _ ' ' noEnder rfl, upTo word _ ender wordPlain ends] at words
  exact words.symm

/-- A keyword at the end of a word would be in front of a space. -/
theorem no_keyword {lower upper c ender : Char} {keyword word after : Text}
    (absent : ¬EndsIn (lower :: keyword) (upper :: keyword) (c :: word))
    (keywordPlain : keyword.any endsWord = false)
    (wordPlain : forall d, d ∈ word -> endsWord d = false) (ends : endsWord ender = true)
    (isLetter : c = lower ∨ c = upper) : ¬keyword ++ [' '] <+: word ++ ender :: after := by
  intro begins
  rcases word_of_prefix keywordPlain wordPlain ends begins with rfl
  rcases isLetter with rfl | rfl
  · exact absent (Or.inl List.suffix_rfl)
  · exact absent (Or.inr List.suffix_rfl)

namespace LocationScan

/-! ## Blanks -/

theorem leads_blank (scan : LocationScan) {blank : Char} (isBlank : isBlank blank = true)
    (rest : Text) : Leads (blank :: rest) scan rest scan := by
  have round : forall (limit : Nat) (stream : InputStream),
      readChar limit scan blank stream = some (scan, stream) := by
    intro limit stream
    simp only [Config.isBlank, Bool.or_eq_true, beq_iff_eq] at isBlank
    rcases isBlank with ((rfl | rfl) | rfl) | rfl <;> rfl
  exact fun _ gives => gives_of_round ⟨0, fun limit past _ => ⟨blank :: past, round limit _⟩⟩ gives
    (fun settled isShort => gives.2 settled (Nat.lt_of_succ_lt isShort))

theorem leads_blanks (scan : LocationScan) {blanks : Text} (allBlank : AllBlank blanks)
    (rest : Text) : Leads (blanks ++ rest) scan rest scan := by
  induction blanks with
  | nil => exact Leads.refl rest scan
  | cons blank blanks inductionHypothesis =>
      exact (leads_blank scan (allBlank blank List.mem_cons_self) (blanks ++ rest)).trans
        (inductionHypothesis (fun c inside => allBlank c (List.mem_cons_of_mem blank inside)))

/-! ## Inert words -/

theorem Same.live_iff {scan scan' : LocationScan} (same : Same scan scan') :
    scan'.Live <-> scan.Live := by
  rw [Live, Live, same.1, same.2.2.1]

/-- An inert word that ends is passed. -/
theorem leads_inertWord {scan : LocationScan} (settled : scan.validLocation = false)
    {heard : Bool} (deaf : heard = false -> ¬scan.Live) {word : Text}
    (plain : forall d, d ∈ word -> endsWord d = false) (inert : Inert heard word)
    {ender : Char} (ends : endsWord ender = true) (after : Text) :
    Exists fun scan' : LocationScan => Same scan scan' ∧
      Leads (word ++ ender :: after) scan (ender :: after) scan' := by
  induction word generalizing scan with
  | nil => exact ⟨scan, Same.refl scan, Leads.refl _ scan⟩
  | cons c word inductionHypothesis =>
      have wordPlain : forall d, d ∈ word -> endsWord d = false :=
        fun d inside => plain d (List.mem_cons_of_mem c inside)
      have idle : scan.Idle c (word ++ ender :: after) := by
        have cPlain := plain c List.mem_cons_self
        refine ⟨settled, ?_, ?_, no_keyword inert.1 (by decide) wordPlain ends, fun live => ?_⟩
        · rintro rfl
          cases cPlain
        · rintro rfl
          cases cPlain
        · have isHeard : heard = true := by
            by_contra notHeard
            exact deaf (by simpa using notHeard) live
          exact ⟨no_keyword (inert.2 isHeard).1 (by decide) wordPlain ends,
            no_keyword (inert.2 isHeard).2 (by decide) wordPlain ends⟩
      rcases leads_idle idle with ⟨middle, sameMiddle, first⟩
      rcases inductionHypothesis (sameMiddle.2.1.trans settled) (fun notHeard => mt
          sameMiddle.live_iff.mp (deaf notHeard)) wordPlain inert.of_cons with ⟨scan', same, others⟩
      exact ⟨scan', sameMiddle.trans same, first.trans others⟩

/-- The last word of a file is passed if it is not ended. -/
theorem leads_lastWord {scan : LocationScan} (settled : scan.validLocation = false)
    {word : Text} (plain : forall d, d ∈ word -> endsWord d = false) :
    Exists fun scan' : LocationScan => Same scan scan' ∧ Leads word scan [] scan' := by
  induction word generalizing scan with
  | nil => exact ⟨scan, Same.refl scan, Leads.refl _ scan⟩
  | cons c word inductionHypothesis =>
      have wordPlain : forall d, d ∈ word -> endsWord d = false :=
        fun d inside => plain d (List.mem_cons_of_mem c inside)
      have noSpace : forall keyword : Text, ' ' ∈ keyword -> ¬keyword <+: word := by
        intro keyword spaced begins
        cases wordPlain ' ' (begins.subset spaced)
      have idle : scan.Idle c word := by
        have cPlain := plain c List.mem_cons_self
        refine ⟨settled, ?_, ?_, fun _ => noSpace _ (by decide),
          fun _ => ⟨fun _ => noSpace _ (by decide), fun _ => noSpace _ (by decide)⟩⟩
        · rintro rfl
          cases cPlain
        · rintro rfl
          cases cPlain
      rcases leads_idle idle with ⟨middle, sameMiddle, first⟩
      rcases inductionHypothesis (sameMiddle.2.1.trans settled) wordPlain with ⟨scan', same, others⟩
      exact ⟨scan', sameMiddle.trans same, first.trans others⟩

theorem bare_plain {word : Text} (bare : Bare word) : forall d, d ∈ word -> endsWord d = false := by
  rcases bare with ⟨c, rest, rfl, begins, inside⟩
  refine List.forall_mem_cons.mpr ⟨?_, inside⟩
  by_contra ends
  simp only [endsWord, Bool.not_eq_false, Bool.or_eq_true, beq_iff_eq] at ends
  rcases ends with ((((rfl | rfl) | rfl) | rfl) | rfl) | rfl <;> cases begins

/-- The inert words of a statement are passed. -/
theorem leads_words (scan : LocationScan) (settled : scan.validLocation = false)
    {heard : Bool} (deaf : heard = false -> ¬scan.Live)
    {words : List Text} (inert : forall word, word ∈ words -> Inert heard word)
    {text : Text} (ordinary : Ordinary text) {others : List Token}
    (tokensAre : tokens text = words.map (Token.mk .normal) ++ others) :
    Exists fun text' : Text => Exists fun scan' : LocationScan =>
      Ordinary text' ∧ tokens text' = others ∧ Same scan scan' ∧ Leads text scan text' scan' := by
  induction words generalizing scan text with
  | nil => exact ⟨text, scan, ordinary, tokensAre, Same.refl scan, Leads.refl text scan⟩
  | cons word words inductionHypothesis =>
      rcases word_lexeme ordinary.unquoted tokensAre with
        ⟨blanks, ender, after, rfl, allBlank, bare, ends, isRead, afterAre⟩
      rcases leads_inertWord settled deaf (bare_plain bare) (inert word List.mem_cons_self) ends
          after with ⟨middle, sameMiddle, passed⟩
      rcases inductionHypothesis middle (sameMiddle.2.1.trans settled) (fun notHeard => mt
          sameMiddle.live_iff.mp (deaf notHeard)) (fun other isOther => inert other
          (List.mem_cons_of_mem word isOther)) (ordinary.next isRead rfl) afterAre with
        ⟨text', scan', ordinary', othersAre, same, onward⟩
      exact ⟨text', scan', ordinary', othersAre, sameMiddle.trans same,
        ((leads_blanks scan allBlank _).trans passed).trans onward⟩

/-! ## Keywords and their arguments -/

/-- The word after a word, and the blanks between them. -/
theorem next_word {text : Text} {ender : Char} (unquoted : Unquoted (ender :: text))
    (ends : endsWord ender = true) {word : Text} {others : List Token}
    (tokensAre : tokens (ender :: text) = ⟨.normal, word⟩ :: others) :
    isBlank ender = true ∧ Exists fun blanks : Text => Exists fun ender' : Char =>
      Exists fun after : Text =>
        text = blanks ++ (word ++ ender' :: after) ∧ AllBlank blanks ∧ Bare word ∧
        endsWord ender' = true ∧ parseToken (ender :: text) = (⟨.normal, word⟩, ender' :: after) ∧
        tokens (ender' :: after) = others := by
  rcases word_lexeme unquoted tokensAre with
    ⟨blanks, ender', after, textIs, allBlank, bare, ends', isRead, othersAre⟩
  cases blanks with
  | nil =>
      have plain := bare_plain bare
      rcases bare with ⟨c, rest, rfl, _, _⟩
      rw [List.nil_append, List.cons_append] at textIs
      rcases List.cons.inj textIs with ⟨rfl, _⟩
      rw [plain ender List.mem_cons_self] at ends
      cases ends
  | cons blank blanks =>
      rw [List.cons_append] at textIs
      rcases List.cons.inj textIs with ⟨rfl, restIs⟩
      exact ⟨allBlank ender List.mem_cons_self, blanks, ender', after, restIs,
        fun c inside => allBlank c (List.mem_cons_of_mem ender inside), bare, ends', isRead,
        othersAre⟩

theorem isspace_of_blank {c : Char} (blank : isBlank c = true) : isspace c = true := by
  simp only [isBlank, Bool.or_eq_true, beq_iff_eq] at blank
  rcases blank with ((rfl | rfl) | rfl) | rfl <;> rfl

theorem spaces_of_blanks {blanks : Text} (allBlank : AllBlank blanks) :
    forall c, c ∈ blanks -> isspace c = true :=
  fun c inside => isspace_of_blank (allBlank c inside)

theorem not_space_of_alphanum {c : Char} (alphanum : c.isAlphanum = true) :
    isspace c = false := by
  by_contra space
  simp only [isspace, Bool.not_eq_false, Bool.or_eq_true, beq_iff_eq] at space
  rcases space with ((((rfl | rfl) | rfl) | rfl) | rfl) | rfl <;> revert alphanum <;> decide

theorem inDir_of_plain {text : Text} (unquoted : Unquoted text) {c : Char} (inside : c ∈ text)
    (plain : endsWord c = false) (noSpace : isspace c = false) : inDir c = true := by
  have noQuote : c ≠ '"' := fun isQuote => (unquoted c inside).2 (Or.inl isQuote)
  simp only [endsWord, Bool.or_eq_false_iff, beq_eq_false_iff_ne] at plain
  simp [inDir, noSpace, noQuote, plain]

theorem inIndex_of_plain {c : Char} (plain : endsWord c = false) (noSpace : isspace c = false) :
    inIndex c = true := by
  simp only [endsWord, Bool.or_eq_false_iff, beq_eq_false_iff_ne] at plain
  simp [inIndex, noSpace, plain]

/-- A keyword is followed by a space, if a word comes after it. -/
theorem keyword_space {text keyword after : Text} {ender : Char} (ordinary : Ordinary text)
    (isKeyword : keyword ∈ ["location".toList, "root".toList, "index".toList])
    (isRead : parseToken text = (⟨.normal, keyword⟩, ender :: after))
    (ends : endsWord ender = true) (blank : isBlank ender = true) : ender = ' ' := by
  rcases ordinary.keywords text keyword after ender (.here text) isKeyword isRead with
    ⟨noTab, noNewline⟩
  simp only [isBlank, Bool.or_eq_true, beq_iff_eq] at blank
  rcases blank with ((isSpace | isTab) | isNewline) | rfl
  · exact isSpace
  · exact absurd isTab noTab
  · exact absurd isNewline noNewline
  · cases ends

/-- A keyword and the word after it.  One space comes right after the keyword, as the
loop wants it. -/
theorem keyword_argument {text keyword word : Text} (ordinary : Ordinary text)
    (isKeyword : keyword ∈ ["location".toList, "root".toList, "index".toList])
    {others : List Token}
    (tokensAre : tokens text = ⟨.normal, keyword⟩ :: ⟨.normal, word⟩ :: others) :
    Exists fun blanks : Text => Exists fun spaces : Text => Exists fun ender : Char =>
      Exists fun after : Text =>
        text = blanks ++ (keyword ++ ' ' :: (spaces ++ (word ++ ender :: after))) ∧
        AllBlank blanks ∧ AllBlank spaces ∧ Bare word ∧ Unquoted word ∧
        endsWord ender = true ∧ Ordinary (ender :: after) ∧ tokens (ender :: after) = others := by
  rcases word_lexeme ordinary.unquoted tokensAre with
    ⟨blanks, ender, after, rfl, allBlank, _, ends, isRead, wordTokens⟩
  have wordOn := ordinary.next isRead rfl
  rcases next_word wordOn.unquoted ends wordTokens with
    ⟨blank, spaces, wordEnder, afterWord, rfl, allSpace, bare, wordEnds, wordRead, othersAre⟩
  rcases keyword_space ordinary isKeyword isRead ends blank with rfl
  have unquoted : Unquoted word := fun c inside => wordOn.unquoted c
    (List.mem_cons_of_mem ' ' (List.mem_append_right spaces (List.mem_append_left _ inside)))
  exact ⟨blanks, spaces, wordEnder, afterWord, rfl, allBlank, allSpace, bare, unquoted, wordEnds,
    wordOn.next wordRead rfl, othersAre⟩

/-- `location P H` is entered. -/
theorem leads_locationWords {scan : LocationScan} {text : Text} (ordinary : Ordinary text)
    {path handler : Text} {others : List Token} (pathPlain : forall c, c ∈ path -> isspace c = false)
    (named : forall c, c ∈ handler -> c.isAlphanum = true)
    (tokensAre : tokens text = ⟨.normal, "location".toList⟩ :: ⟨.normal, '/' :: path⟩ ::
      ⟨.normal, handler⟩ :: others) :
    Exists fun text' : Text => Ordinary text' ∧ tokens text' = others ∧
      Leads text scan text' (scan.atLocation ('/' :: path) handler) := by
  rcases keyword_argument ordinary (by decide) tokensAre with
    ⟨blanks, pathBlanks, pathEnder, afterPath, rfl, allBlank, pathAllBlank, _, _, pathEnds,
     handlerOn, handlerTokens⟩
  rcases next_word handlerOn.unquoted pathEnds handlerTokens with
    ⟨pathBlank, handlerBlanks, handlerEnder, afterHandler, rfl, handlerAllBlank, handlerBare,
     handlerEnds, handlerRead, othersTokens⟩
  rcases handlerBare with ⟨first, rest, rfl, _⟩
  have handlerPlain : forall c, c ∈ first :: rest -> c.isAlphanum = true ∧ isspace c = false :=
    fun c inside => ⟨named c inside, not_space_of_alphanum (named c inside)⟩
  have notNamed : handlerEnder.isAlphanum = false := by
    simp only [endsWord, Bool.or_eq_true, beq_iff_eq] at handlerEnds
    rcases handlerEnds with ((((rfl | rfl) | rfl) | rfl) | rfl) | rfl <;> decide
  have spaced : forall c, c ∈ pathEnder :: handlerBlanks -> isspace c = true :=
    List.forall_mem_cons.mpr ⟨isspace_of_blank pathBlank, spaces_of_blanks handlerAllBlank⟩
  have keywordPassed := leads_location scan (pathBlanks ++ ('/' :: path ++
    pathEnder :: (handlerBlanks ++ (first :: rest ++ handlerEnder :: afterHandler))))
  have pathPassed := leads_path { scan with validLocation := true } rfl pathPlain spaced
    handlerPlain notNamed afterHandler
  exact ⟨handlerEnder :: afterHandler, handlerOn.next handlerRead rfl, othersTokens,
    (leads_blanks scan allBlank _).trans (keywordPassed.trans
      ((leads_blanks _ pathAllBlank _).trans pathPassed))⟩

/-- What ends a word: a blank, the end of a statement, or a brace. -/
theorem ender_cases {ender : Char} (ends : endsWord ender = true) :
    isBlank ender = true ∨ ender = ';' ∨ ender = '{' ∨ ender = '}' := by
  simp only [endsWord, Bool.or_eq_true, beq_iff_eq] at ends
  rcases ends with ((((rfl | rfl) | rfl) | rfl) | rfl) | rfl <;> simp [isBlank]

theorem leads_semicolon (scan : LocationScan) (rest : Text) :
    Leads (';' :: rest) scan rest scan :=
  fun _ gives => gives_of_round ⟨0, fun _ past _ => ⟨';' :: past, rfl⟩⟩ gives
    (fun settled isShort => gives.2 settled (Nat.lt_of_succ_lt isShort))

/-- A symbol is passed. -/
theorem leads_symbol {scan scan' : LocationScan} {symbol : Char} {type : TokenType}
    (passed : forall rest : Text, Leads (symbol :: rest) scan rest scan') {text : Text}
    (ordinary : Ordinary text) {others : List Token}
    (tokensAre : tokens text = ⟨type, [symbol]⟩ :: others)
    (goesOn : (Token.mk type [symbol]).last = false) :
    Exists fun text' : Text =>
      Ordinary text' ∧ tokens text' = others ∧ Leads text scan text' scan' := by
  rcases symbol_lexeme ordinary.unquoted tokensAre goesOn with
    ⟨blanks, after, rfl, allBlank, isRead, othersAre⟩
  exact ⟨after, ordinary.next isRead goesOn, othersAre,
    (leads_blanks scan allBlank _).trans (passed after)⟩

theorem tokens_openBrace (text : Text) :
    tokens ('{' :: text) = ⟨.startBlock, ['{']⟩ :: tokens text :=
  tokens_cons ⟨.startBlock, ['{']⟩ rfl rfl

theorem tokens_closeBrace (text : Text) :
    tokens ('}' :: text) = ⟨.endBlock, ['}']⟩ :: tokens text :=
  tokens_cons ⟨.endBlock, ['}']⟩ rfl rfl

theorem tokens_semicolon (text : Text) :
    tokens (';' :: text) = ⟨.statementEnd, [';']⟩ :: tokens text :=
  tokens_cons ⟨.statementEnd, [';']⟩ rfl rfl

/-- `root R;` is entered. -/
theorem leads_rootStatement {scan : LocationScan} (live : scan.Live) {text : Text}
    (ordinary : Ordinary text) {dir : Text} (noSpace : forall c, c ∈ dir -> isspace c = false)
    {others : List Token}
    (tokensAre : tokens text = ⟨.normal, "root".toList⟩ :: ⟨.normal, dir⟩ ::
      ⟨.statementEnd, [';']⟩ :: others) (goesOn : others ≠ [⟨.eof, []⟩]) :
    Exists fun text' : Text => Ordinary text' ∧ tokens text' = others ∧
      Leads text scan text' (scan.atRoot dir) := by
  rcases keyword_argument ordinary (by decide) tokensAre with
    ⟨blanks, dirBlanks, dirEnder, afterDir, rfl, allBlank, dirAllBlank, dirBare, dirUnquoted,
     dirEnds, endOn, endTokens⟩
  have dirPlain := bare_plain dirBare
  rcases dirBare with ⟨first, rest, rfl, _⟩
  have inDirectory : forall c, c ∈ first :: rest -> inDir c = true := fun c inside =>
    inDir_of_plain dirUnquoted inside (dirPlain c inside) (noSpace c inside)
  have dirEnded : inDir dirEnder = false := by
    rcases ender_cases dirEnds with isBlank | rfl | rfl | rfl
    · simp [inDir, isspace_of_blank isBlank]
    · rfl
    · rw [tokens_openBrace] at endTokens
      cases endTokens
    · rfl
  have more : afterDir ≠ [] := by
    rintro rfl
    rcases ender_cases dirEnds with isBlank | rfl | rfl | rfl
    · rw [tokens_blank isBlank] at endTokens
      cases endTokens
    · rw [tokens_semicolon] at endTokens
      exact goesOn (List.cons.inj endTokens).2.symm
    · rw [tokens_openBrace] at endTokens
      cases endTokens
    · rw [tokens_closeBrace] at endTokens
      cases endTokens
  have entered := leads_root live (spaces_of_blanks dirAllBlank) inDirectory dirEnded more
  rcases leads_symbol (leads_semicolon (scan.atRoot (first :: rest))) endOn endTokens rfl with
    ⟨text', ordinary', othersAre, passed⟩
  exact ⟨text', ordinary', othersAre, (leads_blanks scan allBlank _).trans (entered.trans passed)⟩

/-- `index I ..;` is entered, under its own name if there was none before. -/
theorem leads_indexStatement {scan : LocationScan} (settled : scan.validLocation = false)
    (live : scan.Live) {text : Text} (ordinary : Ordinary text)
    {index : Text} (noSpace : forall c, c ∈ index -> isspace c = false) {words : List Text}
    (inert : forall word, word ∈ words -> Inert true word) {others : List Token}
    (tokensAre : tokens text = ⟨.normal, "index".toList⟩ :: ⟨.normal, index⟩ ::
      (words.map (Token.mk .normal) ++ ⟨.statementEnd, [';']⟩ :: others)) :
    Exists fun text' : Text => Exists fun name : Text => Exists fun scan' : LocationScan =>
      Ordinary text' ∧ tokens text' = others ∧ (scan.indexName = [] -> name = index) ∧
      Same (scan.atIndex name) scan' ∧ Leads text scan text' scan' := by
  rcases keyword_argument ordinary (by decide) tokensAre with
    ⟨blanks, indexBlanks, indexEnder, afterIndex, rfl, allBlank, indexAllBlank, indexBare, _,
     indexEnds, wordsOn, wordTokens⟩
  have indexPlain := bare_plain indexBare
  rcases indexBare with ⟨first, rest, rfl, _⟩
  have inName : forall c, c ∈ first :: rest -> inIndex c = true := fun c inside =>
    inIndex_of_plain (indexPlain c inside) (noSpace c inside)
  have ended : inIndex indexEnder = false -> Leads _ scan afterIndex _ := fun isEnd =>
    (leads_blanks scan allBlank _).trans
      (leads_index live (spaces_of_blanks indexAllBlank) inName isEnd)
  have own : scan.indexName = [] ->
      indexBlanks.foldl InputStream.clear scan.indexName ++ first :: rest = first :: rest := by
    intro noIndex
    rw [noIndex, InputStream.foldl_clear_nil, List.nil_append]
  rcases ender_cases indexEnds with isBlank | rfl | rfl | rfl
  · rw [tokens_blank isBlank] at wordTokens
    rcases leads_words (scan.atIndex (indexBlanks.foldl InputStream.clear scan.indexName ++ first ::
        rest)) settled (fun impossible => by cases impossible) inert (wordsOn.of_blank isBlank)
        wordTokens with ⟨text', scan', ordinary', endTokens, same, passed⟩
    rcases leads_symbol (leads_semicolon scan') ordinary' endTokens rfl with
      ⟨text'', ordinary'', othersAre, finished⟩
    exact ⟨text'', _, scan', ordinary'', othersAre, own, same,
      (ended (by simp [inIndex, isspace_of_blank isBlank])).trans (passed.trans finished)⟩
  · have endRead : parseToken (';' :: afterIndex) = (⟨.statementEnd, [';']⟩, afterIndex) := rfl
    rw [tokens_semicolon] at wordTokens
    cases words with
    | nil =>
        exact ⟨afterIndex, _, _, wordsOn.next endRead rfl, (List.cons.inj wordTokens).2, own,
          Same.refl _, ended rfl⟩
    | cons word words => cases wordTokens
  · rw [tokens_openBrace] at wordTokens
    cases words <;> cases wordTokens
  · rw [tokens_closeBrace] at wordTokens
    cases words <;> cases wordTokens

end LocationScan

end Config
end Webserver
