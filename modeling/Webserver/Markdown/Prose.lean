import Webserver.Library.RegexShapes
import Webserver.Markdown.LineEndings

namespace Webserver
namespace Markdown

open Regex

/-!
# Prose

A document of plain lines becomes a page of paragraphs: the lines between two blank lines
are joined with spaces, encoded and put between tags.  None of the five passes finds
anything else in such a document, since each of their expressions needs a character that
a plain line does not have, or does not begin with.
-/

/-- The characters that can be markup anywhere in a line, or end it. -/
def isMarkup (c : Char) : Bool := "*_`[<\\\x01\t\r\n".toList.contains c

/-- The characters that can be markup where a line begins. -/
def marksLine (c : Char) : Bool := isMarkup c || " #+-=>".toList.contains c || c.isDigit

/-- The text is without markup. -/
def isPlain (text : Text) : Bool := text.all (fun c => !isMarkup c)

/-- A line that is nothing but text. -/
def isProse (line : Text) : Bool :=
  isPlain line && line.head?.any (fun c => !marksLine c) && !"  ".toList.isSuffixOf line

/-- The page for the lines of one paragraph. -/
def paragraphHtml (paragraph : List Text) : Text :=
  if paragraph = [] then []
  else "<p>".toList ++ encodeString .prose ([' '].intercalate paragraph) ++ "</p>\n\n".toList

/-! ## No expression matches -/

theorem isMarkup_of_plain {text : Text} (plain : isPlain text = true) {c : Char} (member : c ∈ text) :
    isMarkup c = false := by
  have each := List.all_eq_true.mp plain c member
  rwa [Bool.not_eq_true'] at each

theorem search_plain {regex : Regex} (needed : regex.needs isMarkup = true) {text : Text}
    (plain : isPlain text = true) : regex.search text = none :=
  search_eq_none_of_needs needed (fun _ member => isMarkup_of_plain plain member)

theorem fullMatch_plain {regex : Regex} (needed : regex.needs isMarkup = true) {text : Text}
    (plain : isPlain text = true) : regex.fullMatch text = none :=
  fullMatch_eq_none_of_needs needed (fun _ member => isMarkup_of_plain plain member)

theorem isPlain_of_prose {line : Text} (prose : isProse line = true) : isPlain line = true := by
  rw [isProse, Bool.and_eq_true, Bool.and_eq_true] at prose
  exact prose.1.1

theorem begins_prose {line : Text} (prose : isProse line = true) : line.head?.any marksLine = false := by
  rw [isProse, Bool.and_eq_true, Bool.and_eq_true] at prose
  cases line with
  | nil => rfl
  | cons c rest => exact (Bool.not_eq_true' _).mp prose.1.2

theorem prose_ne_nil {line : Text} (prose : isProse line = true) : line ≠ [] := by
  rintro rfl
  cases prose

theorem fullMatch_prose {line : Text} (prose : isProse line = true) {regex : Regex} (open_ : regex.opens marksLine = true) :
    regex.fullMatch line = none :=
  fullMatch_eq_none_of_opens open_ (begins_prose prose)

theorem lineToken_prose {line : Text} (prose : isProse line = true) : lineToken line = .rawText line := by
  have notBlank : cBlankLine.fullMatch line = none :=
    fullMatch_eq_none_of_mayOpen (by decide : cBlankLine.mayOpen marksLine = true)
      (prose_ne_nil prose) (begins_prose prose)
  rw [lineToken, isBlankLine, notBlank]
  rfl

/-- No line break, since the line does not end in two spaces. -/
theorem noLineBreak {line : Text} (prose : isProse line = true) : cLineBreak.fullMatch line = none := by
  cases matched : cLineBreak.fullMatch line with
  | none => rfl
  | some m =>
      rcases fullMatch_eq_some matched with ⟨final, passes, whole, _⟩
      cases passes with | seq passes stops
      cases stops
      cases passes with | seq content spaces
      rcases content.reads with ⟨text, before⟩
      have ends_ := (before.trans spaces.of_word).1.symm.trans whole.1
      rw [List.append_left_inj] at ends_
      rw [isProse, Bool.and_eq_true, ← ends_] at prose
      have suffix := List.isSuffixOf_iff_suffix.mpr (List.suffix_append text "  ".toList)
      rw [suffix] at prose
      cases prose.2

/-- A line of prose goes on with the paragraph. -/
theorem joinParagraphLines_prose {line : Text} (prose : isProse line = true) (noParagraphs : Bool)
    (text : Text) (rest : List Token) :
    joinParagraphLines noParagraphs text (lineToken line :: rest) =
      joinParagraphLines noParagraphs ((if text = [] then [] else text ++ [' ']) ++ line) rest := by
  have has : paragraphLine (.rawText line) = some line := rfl
  rw [lineToken_prose prose, joinParagraphLines, has]
  dsimp only
  rw [noLineBreak prose]

theorem text?_lineToken (line : Text) : (lineToken line).text? = some line := by
  rw [lineToken]
  split
  · rfl
  · rfl

/-! ## The passes find nothing -/

/-- A line of a document of prose. -/
def Readable (line : Text) : Prop := line = [] ∨ isProse line = true

theorem Readable.plain {line : Text} (readable : Readable line) : isPlain line = true := by
  rcases readable with rfl | prose
  · rfl
  · exact isPlain_of_prose prose

theorem expandTabs_eq {line : Text} (noTab : '\t' ∉ line) (initialWhitespace : Bool) (read : Text) :
    expandTabs initialWhitespace read line = read ++ line := by
  induction line generalizing initialWhitespace read with
  | nil => exact (List.append_nil read).symm
  | cons c rest inductionHypothesis =>
      rcases not_or.mp (fun member => noTab (List.mem_cons.mpr member)) with ⟨other, onward⟩
      rw [expandTabs, if_neg (Ne.symm other), inductionHypothesis onward, List.append_assoc]
      rfl

theorem read_lines {ending : Text} (known : ending ∈ lineEndings) {lines : List Text}
    (oneLine : forall line, line ∈ lines -> OneLine line) (noTab : forall line, line ∈ lines -> '\t' ∉ line) :
    read (terminated ending lines) = lines.map lineToken := by
  rw [read, documentLines_terminated known oneLine, List.map_map]
  apply List.map_congr_left
  intro line member
  rw [Function.comp_apply, expandTabs_eq (noTab line member), List.nil_append]

theorem read_readable {ending : Text} (known : ending ∈ lineEndings) {lines : List Text}
    (readable : forall line, line ∈ lines -> Readable line) :
    read (terminated ending lines) = lines.map lineToken := by
  have absent : forall c : Char, isMarkup c = true -> forall line, line ∈ lines -> c ∉ line := by
    intro c markup line member inside
    rw [isMarkup_of_plain (readable line member).plain inside] at markup
    cases markup
  exact read_lines known (fun line member => ⟨absent '\r' rfl line member, absent '\n' rfl line member⟩)
    (absent '\t' rfl)

/-- Lines that the passes over HTML and references leave as they are. -/
structure NoHtml (line : Text) : Prop where
  split : cHtmlTokenStart.fullMatch line = none
  tag : cStartHtmlTokenExpression.search line = none
  comment : (Regex.lineStart ++ .word "<!--".toList : Regex).search line = none
  reference : cReference.fullMatch line = none

theorem noHtml_of_plain {line : Text} (plain : isPlain line = true) : NoHtml line :=
  ⟨fullMatch_plain (by decide) plain, search_plain (by decide) plain, search_plain (by decide) plain,
    fullMatch_plain (by decide) plain⟩

theorem mergeMultilineHtmlTags_lines {lines : List Text}
    (noHtml : forall line, line ∈ lines -> NoHtml line) :
    mergeMultilineHtmlTags (lines.map lineToken) = lines.map lineToken := by
  induction lines with
  | nil => rfl
  | cons line rest inductionHypothesis =>
      have later := inductionHypothesis (fun other member => noHtml other (List.mem_cons_of_mem line member))
      cases rest with
      | nil => rfl
      | cons next rest =>
          rw [List.map_cons] at later
          rw [List.map_cons, List.map_cons, mergeMultilineHtmlTags, text?_lineToken, text?_lineToken]
          dsimp only
          rw [(noHtml line List.mem_cons_self).split, later]
          rfl

theorem parseInlineHtml_line {line : Text} (noHtml : NoHtml line) (tokens : List Token) :
    parseInlineHtml (lineToken line :: tokens) = none := by
  rw [parseInlineHtml, text?_lineToken]
  dsimp only
  rw [parseHtmlTag, isHtmlCommentStart, noHtml.comment, if_neg Bool.false_ne_true, noHtml.tag]
  rfl

theorem processInlineHtmlAndReferences_lines {lines : List Text}
    (noHtml : forall line, line ∈ lines -> NoHtml line) (back : Option Token) (idTable : LinkIds) :
    processInlineHtmlAndReferences back idTable (lines.map lineToken) = (lines.map lineToken, idTable) := by
  induction lines generalizing back with
  | nil => rw [List.map_nil, processInlineHtmlAndReferences]
  | cons line rest inductionHypothesis =>
      have here := noHtml line List.mem_cons_self
      have later := inductionHypothesis fun other member => noHtml other (List.mem_cons_of_mem line member)
      rw [List.map_cons, processInlineHtmlAndReferences, if_pos (by rw [text?_lineToken]; rfl)]
      split
      · rename_i found
        rw [parseInlineHtml_line here, ite_self] at found
        cases found
      · split
        · rename_i found
          rw [parseReference, text?_lineToken] at found
          dsimp only [Option.bind_some] at found
          rw [here.reference] at found
          cases found
        · rw [later]

/-- Lines that begin no block, apart from one of code. -/
structure NoBlock (line : Text) : Prop where
  header : cHashHeaders.fullMatch line = none
  underline : cUnderlinedHeaders.fullMatch line = none
  rule : cHorizontalRules.fullMatch line = none
  list : listStart false line = none
  quote : cBlockQuoteExpression.fullMatch line = none

/-- The next line, if it has a text, does not underline a header. -/
def NoUnderline (rest : List Token) : Prop :=
  forall token, rest.head? = some token -> (blockText token).bind cUnderlinedHeaders.fullMatch = none

theorem parseHeader_noBlock {line : Text} (noBlock : NoBlock line) {rest : List Token}
    (next : NoUnderline rest) : parseHeader (.rawText line :: rest) = none := by
  have text : blockText (.rawText line) = some line := rfl
  rw [parseHeader, text]
  dsimp only
  rw [noBlock.header]
  cases rest with
  | nil => rfl
  | cons token rest =>
      dsimp only
      rw [next token rfl]

/-- Only the parser for code is left. -/
theorem parseBlock_noBlock {line : Text} (noBlock : NoBlock line) {rest : List Token}
    (next : NoUnderline rest) (rounds : Nat) :
    parseBlock (rounds + 1) (.rawText line :: rest) = .ok (parseCodeBlock (.rawText line :: rest)) := by
  have text : blockText (.rawText line) = some line := rfl
  have noList : parseListBlock (rounds + 1) false (.rawText line :: rest) = .ok none := by
    rw [parseListBlock.eq_def]
    dsimp only [Token.text?, Option.bind_some]
    rw [noBlock.list]
    rfl
  rw [parseBlock, parseHeader_noBlock noBlock next]
  dsimp only
  rw [parseHorizontalRule, text, Option.bind_some, noBlock.rule]
  dsimp only
  rw [noList, parseBlockQuote, text, Option.bind_some, noBlock.quote]
  rfl

theorem noBlock_prose {line : Text} (prose : isProse line = true) : NoBlock line := by
  have noBullet := fullMatch_prose prose (by decide : cUnorderedListExpression.opens marksLine = true)
  have noNumber := fullMatch_prose prose (by decide : cOrderedListExpression.opens marksLine = true)
  exact ⟨fullMatch_prose prose (by decide), fullMatch_prose prose (by decide),
    fullMatch_prose prose (by decide), by rw [listStart, noBullet, noNumber],
    fullMatch_prose prose (by decide)⟩

theorem noUnderline_readable {lines : List Text} (readable : forall line, line ∈ lines -> Readable line) :
    NoUnderline (lines.map lineToken) := by
  cases lines with
  | nil => exact fun token first => absurd first.symm (Option.some_ne_none token)
  | cons line rest =>
      intro token first
      obtain rfl := Option.some.inj first
      rcases readable line List.mem_cons_self with rfl | prose
      · rfl
      · rw [lineToken_prose prose]
        exact (noBlock_prose prose).underline

theorem parseCodeBlock_prose {line : Text} (prose : isProse line = true) (rest : List Token) :
    parseCodeBlock (.rawText line :: rest) = none := by
  have noIndent : "    ".toList.isPrefixOf line = false := by
    have begins := begins_prose prose
    cases line with
    | nil => rfl
    | cons c line =>
        have other : c ≠ ' ' := by
          rintro rfl
          cases begins
        exact Bool.and_eq_false_imp.mpr fun same => absurd (beq_iff_eq.mp same).symm other
  have noCode : isCodeBlockLine (.rawText line :: rest) = none := by
    change (if "    ".toList.isPrefixOf line = true then some (line.drop 4, rest) else none) = none
    rw [noIndent]
    rfl
  rw [parseCodeBlock, noCode]
  rfl

theorem parseBlock_readable {line : Text} (readable : Readable line) {rest : List Text}
    (others : forall other, other ∈ rest -> Readable other) (rounds : Nat) :
    parseBlock (rounds + 1) (lineToken line :: rest.map lineToken) = .ok none := by
  rcases readable with rfl | prose
  · rfl
  · rw [lineToken_prose prose, parseBlock_noBlock (noBlock_prose prose) (noUnderline_readable others),
      parseCodeBlock_prose prose]

theorem processBlocksItems_readable {lines : List Text}
    (readable : forall line, line ∈ lines -> Readable line) {rounds : Nat} (enough : lines.length < rounds) :
    processBlocksItems rounds (lines.map lineToken) = .ok (lines.map lineToken) := by
  induction lines generalizing rounds with
  | nil =>
      cases rounds with
      | zero => cases enough
      | succ rounds => rfl
  | cons line rest inductionHypothesis =>
      have others := fun other member => readable other (List.mem_cons_of_mem line member)
      match rounds, enough with
      | rounds + 2, enough =>
          have later := inductionHypothesis others (Nat.lt_of_succ_lt_succ enough)
          rw [List.map_cons, processBlocksItems.eq_def]
          dsimp only
          rw [if_pos (by rw [text?_lineToken]; rfl), parseBlock_readable (readable line List.mem_cons_self) others]
          change (processBlocksItems (rounds + 1) (rest.map lineToken) >>= fun later =>
            .ok (lineToken line :: later)) = _
          rw [later]
          rfl

/-! ## Paragraphs -/

theorem processEachParagraphLines_lines (lines : List Text) :
    processEachParagraphLines (lines.map lineToken) = lines.map lineToken := by
  induction lines with
  | nil => rfl
  | cons line rest inductionHypothesis =>
      rw [List.map_cons, processEachParagraphLines, inductionHypothesis, lineToken]
      split
      · rw [processParagraphLines]
      · rw [processParagraphLines]

theorem intercalate_concat (separator : Text) {front : List Text} (nonempty : front ≠ []) (last : Text) :
    separator.intercalate (front ++ [last]) = separator.intercalate front ++ (separator ++ last) := by
  induction front with
  | nil => exact absurd rfl nonempty
  | cons first rest inductionHypothesis =>
      cases rest with
      | nil =>
          rw [List.singleton_append, List.intercalate_cons_cons, List.intercalate_singleton,
            List.intercalate_singleton, List.append_assoc]
      | cons second rest =>
          rw [List.cons_append, List.cons_append, List.intercalate_cons_cons, List.intercalate_cons_cons,
            ← List.cons_append, inductionHypothesis (List.cons_ne_nil _ _)]
          simp only [List.append_assoc]

/-- What the fourth pass makes of prose: blank lines, and paragraphs of text. -/
def Settled (token : Token) : Prop :=
  token = .text .blankLine [] ∨ Exists fun text : Text =>
    text ≠ [] ∧ isPlain text = true ∧ token = .container .paragraph [.rawText text]

theorem settled_flushParagraph {text : Text} (plain : isPlain text = true) {token : Token}
    (member : token ∈ flushParagraph false text) : Settled token := by
  rw [flushParagraph] at member
  split at member
  · cases member
  · rename_i nonempty
    exact Or.inr ⟨text, nonempty, plain, List.mem_singleton.mp member⟩

theorem settled_joinParagraphLines {lines : List Text}
    (readable : forall line, line ∈ lines -> Readable line) {text : Text} (plain : isPlain text = true)
    {token : Token} (member : token ∈ joinParagraphLines false text (lines.map lineToken)) :
    Settled token := by
  induction lines generalizing text with
  | nil => exact settled_flushParagraph plain member
  | cons line rest inductionHypothesis =>
      have onward : forall {text : Text}, isPlain text = true ->
          token ∈ joinParagraphLines false text (rest.map lineToken) -> Settled token :=
        inductionHypothesis fun other member => readable other (List.mem_cons_of_mem line member)
      rcases readable line List.mem_cons_self with rfl | prose
      · rcases List.mem_append.mp member with flushed | later
        · exact settled_flushParagraph plain flushed
        · rcases List.mem_cons.mp later with here | later
          · exact Or.inl here
          · exact onward rfl later
      · rw [List.map_cons, joinParagraphLines_prose prose] at member
        refine onward ?_ member
        split
        · exact isPlain_of_prose prose
        · rw [isPlain, List.all_append, List.all_append, Bool.and_eq_true, Bool.and_eq_true]
          exact ⟨⟨plain, rfl⟩, isPlain_of_prose prose⟩

/-! ## Spans -/

section

variable {text : Text} (plain : isPlain text = true)

include plain

theorem substitute_plain {regex : Regex} (needed : regex.needs isMarkup = true)
    (replace : Regex.Match -> ReplacementTable -> Except Fault (Text × ReplacementTable))
    (table : ReplacementTable) : substitute regex replace text table = .ok (text, table) := by
  rw [substitute, matches_of_none (search_plain needed plain)]
  rfl

theorem processCodeSpans_plain (table : ReplacementTable) :
    processCodeSpans text table = .ok (text, table) := by
  have needed : cCodeSpan.all (fun expression => expression.needs isMarkup) = true := by decide
  rw [processCodeSpans]
  generalize cCodeSpan = expressions at needed ⊢
  induction expressions with
  | nil => rfl
  | cons expression rest inductionHypothesis =>
      rw [List.all_cons, Bool.and_eq_true] at needed
      rw [List.foldlM_cons]
      change (substitute expression _ text table >>= _) = _
      rw [substitute_plain plain needed.1]
      exact inductionHypothesis needed.2

theorem processEscapedCharacters_plain : processEscapedCharacters text = text := by
  induction text with
  | nil => rfl
  | cons c rest inductionHypothesis =>
      rw [isPlain, List.all_cons, Bool.and_eq_true] at plain
      have other : c ≠ '\\' := by
        rintro rfl
        cases plain.1
      rw [processEscapedCharacters.eq_def]
      dsimp only
      rw [if_neg other, inductionHypothesis plain.2]

theorem linkLoop_plain (idTable : LinkIds) (rounds : Nat) (table : ReplacementTable) :
    linkLoop idTable rounds text table = .ok (text, table) := by
  cases rounds with
  | zero => rfl
  | succ rounds =>
      rw [linkLoop, search_plain (by decide : cLinkExpression.needs isMarkup = true) plain]

theorem processBoldAndItalicSpans_plain (nonempty : text ≠ []) (rounds : Nat) (table : ReplacementTable) :
    processBoldAndItalicSpans (rounds + 2) text table = .ok [.rawText text] := by
  have raw : rawTokens text = [.rawText text] := if_neg nonempty
  have markers : readMarkers text = [.rawText text] := by
    rw [readMarkers, matches_of_none (search_plain
      (by decide : cEmphasisExpression.needs isMarkup = true) plain)]
    exact raw
  have placeholders : encodeProcessedItems table text = .ok [.rawText text] := by
    rw [encodeProcessedItems, matches_of_none (search_plain
      (by decide : cReplaced.needs isMarkup = true) plain)]
    exact congrArg Except.ok raw
  have unmatched : processMarkers (rounds + 2) [.rawText text] = .ok [.rawText text] := by
    rw [processMarkers, matchMarkers.eq_def]
    rfl
  rw [processBoldAndItalicSpans, markers, unmatched]
  dsimp only [bind, Except.bind]
  rw [List.flatMapM_cons, List.flatMapM_nil]
  change (encodeProcessedItems table text >>= _) = _
  rw [placeholders]
  rfl

theorem processSpans_plain (nonempty : text ≠ []) (rounds : Nat) (idTable : LinkIds) :
    processSpans (rounds + 2) idTable text = .ok [.rawText text] := by
  have tags : processHtmlTagAttributes text [] = .ok (text, []) := substitute_plain plain (by decide) _ _
  rw [processSpans, tags]
  change (processCodeSpans text [] >>= _) = _
  rw [processCodeSpans_plain plain]
  change (linkLoop idTable (processEscapedCharacters text).length (processEscapedCharacters text) [] >>= _) = _
  rw [processEscapedCharacters_plain plain, linkLoop_plain plain]
  exact processBoldAndItalicSpans_plain plain nonempty rounds []

end

theorem processEachSpanElements_settled {tokens : List Token}
    (settled : forall token, token ∈ tokens -> Settled token) (rounds : Nat) (idTable : LinkIds) :
    processEachSpanElements (rounds + 2) idTable tokens = .ok tokens := by
  induction tokens with
  | nil => rfl
  | cons token rest inductionHypothesis =>
      have later := inductionHypothesis fun other member => settled other (List.mem_cons_of_mem token member)
      have here : processSpanElements (rounds + 2) idTable token = .ok [token] := by
        rcases settled token List.mem_cons_self with rfl | ⟨text, nonempty, plain, rfl⟩
        · rfl
        · have spans := processSpans_plain plain nonempty rounds idTable
          rw [processSpanElements, processEachSpanElements, processSpanElements, spans]
          rfl
      rw [processEachSpanElements, here]
      change (processEachSpanElements (rounds + 2) idTable rest >>= _) = _
      rw [later]
      rfl

/-! ## The page -/

theorem writeAllAsHtml_append (first second : List Token) :
    Token.writeAllAsHtml (first ++ second) = Token.writeAllAsHtml first ++ Token.writeAllAsHtml second := by
  induction first with
  | nil => rfl
  | cons token rest inductionHypothesis =>
      rw [List.cons_append, Token.writeAllAsHtml, Token.writeAllAsHtml, inductionHypothesis,
        List.append_assoc]

theorem intercalate_ne_nil {front : List Text} (proses : forall line, line ∈ front -> isProse line = true)
    (nonempty : front ≠ []) : [' '].intercalate front ≠ [] := by
  cases front with
  | nil => exact absurd rfl nonempty
  | cons line rest =>
      have here := prose_ne_nil (proses line List.mem_cons_self)
      cases rest with
      | nil => rwa [List.intercalate_singleton]
      | cons next rest =>
          rw [List.intercalate_cons_cons, List.append_assoc]
          exact List.append_ne_nil_of_left_ne_nil here _

theorem write_flushParagraph {front : List Text}
    (proses : forall line, line ∈ front -> isProse line = true) :
    Token.writeAllAsHtml (flushParagraph false ([' '].intercalate front)) = paragraphHtml front := by
  rw [flushParagraph, paragraphHtml]
  by_cases empty : front = []
  · subst empty
    rfl
  · rw [if_neg (intercalate_ne_nil proses empty), if_neg Bool.false_ne_true, if_neg empty]
    change ("<p>".toList ++ ((([] : Text) ++ encodeString .prose _ ++ []) ++ []) ++ "</p>\n\n".toList) ++ [] = _
    simp only [List.nil_append, List.append_nil]

/-- The lines in front are those of the paragraph that has been begun. -/
theorem write_joinParagraphLines {front lines : List Text}
    (proses : forall line, line ∈ front -> isProse line = true)
    (readable : forall line, line ∈ lines -> Readable line) :
    Token.writeAllAsHtml (joinParagraphLines false ([' '].intercalate front) (lines.map lineToken)) =
      ((front ++ lines).splitOnP List.isEmpty).flatMap paragraphHtml := by
  have full : forall line, line ∈ front -> List.isEmpty line = false :=
    fun line member => List.isEmpty_eq_false_iff.mpr (prose_ne_nil (proses line member))
  induction lines generalizing front with
  | nil =>
      rw [List.append_nil, List.splitOnP_eq_singleton full, List.flatMap_singleton]
      exact write_flushParagraph proses
  | cons line rest inductionHypothesis =>
      have others := fun other member => readable other (List.mem_cons_of_mem line member)
      rcases readable line List.mem_cons_self with rfl | prose
      · have onward := @inductionHypothesis [] (fun _ member => absurd member List.not_mem_nil)
          others (fun _ member => absurd member List.not_mem_nil)
        rw [List.splitOnP_append_cons_of_forall_mem full _ rfl, List.flatMap_cons]
        change Token.writeAllAsHtml (flushParagraph false _ ++
          .text .blankLine [] :: joinParagraphLines false [] (rest.map lineToken)) = _
        rw [writeAllAsHtml_append, write_flushParagraph proses]
        exact congrArg (paragraphHtml front ++ ·) onward
      · have provesToo : forall other, other ∈ front ++ [line] -> isProse other = true := by
          intro other member
          rcases List.mem_append.mp member with before | here
          · exact proses other before
          · exact List.mem_singleton.mp here ▸ prose
        have onward := inductionHypothesis provesToo others
          (fun other member => List.isEmpty_eq_false_iff.mpr (prose_ne_nil (provesToo other member)))
        rw [List.append_assoc, List.singleton_append] at onward
        rw [← onward, List.map_cons, joinParagraphLines_prose prose]
        by_cases empty : front = []
        · subst empty
          rw [if_pos List.intercalate_nil, List.nil_append, List.nil_append, List.intercalate_singleton]
        · rw [if_neg (intercalate_ne_nil proses empty), intercalate_concat _ empty, List.append_assoc]

/-- The passes leave a document of prose as its paragraphs' texts. -/
theorem convert_readable {ending : Text} (known : ending ∈ lineEndings) {lines : List Text}
    (readable : forall line, line ∈ lines -> Readable line) {rounds : Nat}
    (enough : lines.length + 1 < rounds) : convert rounds (terminated ending lines) =
      .ok (Token.writeAllAsHtml (joinParagraphLines false [] (lines.map lineToken))) := by
  have noHtml := fun line member => noHtml_of_plain (readable line member).plain
  have settled : forall token, token ∈ joinParagraphLines false [] (lines.map lineToken) -> Settled token :=
    fun token member => settled_joinParagraphLines readable rfl member
  have processed : process rounds (read (terminated ending lines)) =
      .ok (joinParagraphLines false [] (lines.map lineToken)) := by
    rw [process, read_readable known readable, mergeMultilineHtmlTags_lines noHtml,
      processInlineHtmlAndReferences_lines noHtml]
    dsimp only
    rw [processBlocksItems_readable readable (Nat.lt_of_succ_lt enough)]
    change processEachSpanElements rounds _
      (joinParagraphLines false [] (processEachParagraphLines (lines.map lineToken))) = _
    obtain ⟨more, rfl⟩ : Exists fun more : Nat => rounds = more + 2 := ⟨rounds - 2, by omega⟩
    rw [processEachParagraphLines_lines, processEachSpanElements_settled settled]
  rw [convert, processed]
  rfl

/-- A document of prose is converted to its paragraphs: each run of lines between blank
lines, joined with spaces and encoded. -/
theorem convert_prose {ending : Text} (known : ending ∈ lineEndings) {lines : List Text}
    (readable : forall line, line ∈ lines -> line = [] ∨ isProse line = true) {rounds : Nat}
    (enough : lines.length + 1 < rounds) :
    convert rounds (terminated ending lines) =
      .ok ((lines.splitOnP List.isEmpty).flatMap paragraphHtml) := by
  rw [convert_readable known readable enough]
  exact congrArg Except.ok (write_joinParagraphLines (fun _ member => absurd member List.not_mem_nil) readable)

/-- Two paragraphs, the first of two lines. -/
theorem convert_prose_note :
    convert 9 (terminated ['\n'] ["Salt & pepper,".toList, "eggs".toList, [], "Stir.".toList]) =
      .ok "<p>Salt &amp; pepper, eggs</p>\n\n<p>Stir.</p>\n\n".toList := by
  apply convert_prose (by decide)
  · intro line listed
    simp only [List.mem_cons, List.not_mem_nil, or_false] at listed
    rcases listed with rfl | rfl | rfl | rfl
    · decide
    · decide
    · decide
    · decide
  · decide

end Markdown
end Webserver
