import Webserver.Markdown.Prose
import Webserver.Markdown.TameTokens

namespace Webserver
namespace Markdown

open Regex

/-!
# Code

Lines that are indented by four spaces become one block of code, whatever else is in
them.  The block shows the lines as they are: a reader who replaces the character
references gets them back.
-/

/-- A line of code, without what it is indented by. -/
def isCode (line : Text) : Bool :=
  line.all (fun c => !"\t\r\n\x0c".toList.contains c) && line.any (fun c => c != ' ')

def indented (line : Text) : Text := "    ".toList ++ line

/-! ## Character references -/

/-- What `encodeString` writes for the characters that it encodes. -/
def characterReferences : List (Text × Char) :=
  [("&amp;".toList, '&'), ("&lt;".toList, '<'), ("&gt;".toList, '>'), ("&quot;".toList, '"')]

/-- The text with the characters that its references stand for; `skipped` characters are
still part of a reference. -/
def decodeFrom : Nat -> Text -> Text
  | _, [] => []
  | skipped + 1, _ :: rest => decodeFrom skipped rest
  | 0, c :: rest =>
      match characterReferences.find? (fun reference => reference.1.isPrefixOf (c :: rest)) with
      | some reference => reference.2 :: decodeFrom (reference.1.length - 1) rest
      | none => c :: decodeFrom 0 rest

def decodeReferences (html : Text) : Text := decodeFrom 0 html

theorem decodeFrom_other {c : Char} (other : c ≠ '&') (rest : Text) :
    decodeFrom 0 (c :: rest) = c :: decodeFrom 0 rest := by
  have unread : characterReferences.find? (fun reference => reference.1.isPrefixOf (c :: rest)) = none := by
    have first : ('&' == c) = false := beq_eq_false_iff_ne.mpr (Ne.symm other)
    simp [characterReferences, List.isPrefixOf, first]
  rw [decodeFrom, unread]

/-- Code is encoded in a way that can be undone. -/
theorem decodeReferences_encodeString (text : Text) :
    decodeReferences (encodeString .code text) = text := by
  induction text with
  | nil => rfl
  | cons c rest inductionHypothesis =>
      rw [decodeReferences] at inductionHypothesis ⊢
      by_cases ampersand : c = '&'
      · subst ampersand
        exact congrArg ('&' :: ·) inductionHypothesis
      · by_cases opens : c = '<'
        · subst opens
          exact congrArg ('<' :: ·) inductionHypothesis
        · by_cases closes : c = '>'
          · subst closes
            exact congrArg ('>' :: ·) inductionHypothesis
          · by_cases quote : c = '"'
            · subst quote
              exact congrArg ('"' :: ·) inductionHypothesis
            · have plain : encodeString .code (c :: rest) = c :: encodeString .code rest := by
                simp [encodeString, EncodingFlags.code, ampersand, opens, closes, quote]
              rw [plain, decodeFrom_other ampersand, inductionHypothesis]

/-! ## Indented lines -/

/-- Less than four characters do not reach the text of an indented line. -/
theorem space_of_short {line read rest : Text} (whole : indented line = read ++ rest)
    (short : read.length < 4) : rest.head? = some ' ' := by
  have here := (List.head?_drop (i := read.length) (l := indented line)).symm
  rw [whole, List.drop_left] at here
  rw [← here, ← whole, indented, List.getElem?_append_left short]
  exact List.getElem?_replicate_of_lt short

theorem upTo_indented {line : Text} {cursor final : Cursor} (passes : Passes (.upTo 3 space) cursor final)
    (here : cursor.after = indented line) : final.after.head? = some ' ' := by
  rcases Passes.of_upTo passes with ⟨read, short, run⟩
  exact space_of_short (here.symm.trans run.1.1) (Nat.lt_succ_of_le short)

/-- What belongs at the margin does not begin behind it. -/
theorem not_margin {property : Char -> Bool} {body : Regex} (open_ : body.opens property = true)
    (noSpace : property ' ' = false) {line : Text} {cursor final : Cursor} (here : cursor.after = indented line)
    (passes : Passes (.upTo 3 space ++ body) cursor final) : False := by
  cases passes with | seq margin back
  have started := back.of_opens open_
  rw [upTo_indented margin here] at started
  exact Bool.false_ne_true (noSpace.symm.trans started)

theorem noRule_indented (line : Text) : cHorizontalRules.fullMatch (indented line) = none := by
  cases matched : cHorizontalRules.fullMatch (indented line) with
  | none => rfl
  | some m =>
      rcases fullMatch_eq_some matched with ⟨final, passes, _, _⟩
      cases passes with | seq passes atEnd
      cases passes with | seq passes marks
      cases passes with | seq start margin
      cases start
      have opens : (.times 3 (.group 1 (.alt (.word ['-']) (.alt (.word ['*']) (.word ['_'])) ++ .many space)) ++
        .many (.group 1 (.alt (.word ['-']) (.alt (.word ['*']) (.word ['_'])) ++ .many space)) :
          Regex).opens (fun c => c != ' ') = true := by decide
      exact (not_margin opens rfl rfl (.seq margin marks)).elim

theorem noReference_indented (line : Text) : cReference.fullMatch (indented line) = none := by
  cases matched : cReference.fullMatch (indented line) with
  | none => rfl
  | some m =>
      rcases fullMatch_eq_some matched with ⟨final, passes, _, _⟩
      iterate 8 cases passes with | seq passes _
      cases passes with | seq passes bracket
      cases passes with | seq start margin
      cases start
      exact (not_margin (by decide : (Regex.word ['[']).opens (fun c => c != ' ') = true) rfl rfl
        (.seq margin bracket)).elim

theorem noQuote_indented (line : Text) : cBlockQuoteExpression.fullMatch (indented line) = none := by
  cases matched : cBlockQuoteExpression.fullMatch (indented line) with
  | none => rfl
  | some m =>
      rcases fullMatch_eq_some matched with ⟨final, passes, _, _⟩
      iterate 3 cases passes with | seq passes _
      cases passes with | seq start marks
      cases start
      rcases marks.of_group with ⟨inner, _, inside, _, _⟩
      cases inside with | seq mark more
      exact (not_margin (by decide : (Regex.word ['>']).opens (fun c => c != ' ') = true) rfl rfl mark).elim

theorem noBlank_indented {line : Text} (code : isCode line = true) :
    cBlankLine.fullMatch (indented line) = none := by
  cases matched : cBlankLine.fullMatch (indented line) with
  | none => rfl
  | some m =>
      rcases fullMatch_eq_some matched with ⟨final, passes, whole, _⟩
      cases passes with | seq passes spaces
      cases passes with | seq margin comments
      rcases Passes.of_upTo margin with ⟨front, _, first⟩
      rcases Passes.of_many spaces with ⟨back, last⟩
      have between := comments.of_mayOpen (by decide : (Regex.many _).mayOpen (fun c => c == '<') = true)
      rw [upTo_indented margin rfl] at between
      have unread := between.resolve_right Bool.false_ne_true
      have atEnd : final.after = [] := List.append_right_eq_self.mp whole.1.symm
      have parts : indented line = front ++ back := by
        have read := first.1.1
        rw [← unread, last.1.1, atEnd, List.append_nil] at read
        exact read
      rw [isCode, Bool.and_eq_true, List.any_eq_true] at code
      rcases code.2 with ⟨c, member, other⟩
      have inside : c ∈ front ++ back := parts ▸ List.mem_append_right _ member
      have spaced : (CharSet.oneOf [' ']).accepts c = true :=
        (List.mem_append.mp inside).elim (first.2.1 c) (last.2.1 c)
      simp only [CharSet.accepts, CharSet.oneOf, List.any_nil, Bool.or_false, bne_iff_ne, ne_eq,
        Bool.not_eq_false, List.contains_iff_mem, List.mem_singleton] at spaced other
      exact (other spaced).elim

/-- A list that an indented line could start is indented by four spaces or more. -/
theorem indent_of_marks {mark : Regex} {property : Char -> Bool} (open_ : mark.opens property = true)
    (noSpace : property ' ' = false) (kept : mark.avoids 1 = true) {line : Text} {final : Cursor}
    (passes : Passes (.lineStart ++ .group 1 (.many space) ++ mark) (.start (indented line)) final) :
    4 ≤ ((final.groups.lookup 1).getD []).length := by
  cases passes with | seq passes marks
  cases passes with | seq start indent
  cases start
  rcases indent.of_group with ⟨inner, read, inside, reads, same⟩
  have started := marks.of_opens open_
  rw [marks.lookup_of_avoids kept, same, List.lookup_cons, beq_self_eq_true]
  change 4 ≤ read.length
  rw [same] at started
  apply Nat.le_of_not_lt
  intro short
  rw [show (⟨inner.before, inner.after, (1, read) :: inner.groups⟩ : Cursor).after.head? = some ' ' from
    space_of_short reads.1 short] at started
  exact Bool.false_ne_true (noSpace.symm.trans started)

theorem noList_indented (line : Text) : listStart false (indented line) = none := by
  have wide : forall {indent : Nat}, 4 ≤ indent -> ¬ (false || decide (indent < 4)) = true := by
    intro indent large small
    rw [Bool.false_or, decide_eq_true_eq] at small
    omega
  rw [listStart]
  split
  · rename_i m matched
    rcases fullMatch_eq_some matched with ⟨final, passes, _, groups⟩
    cases passes with | seq passes atEnd
    cases passes with | seq passes content
    cases passes with | seq passes gap
    have large := indent_of_marks (by decide : (Regex.group 2 (.one (.oneOf ['*', '+', '-']))).opens
      (fun c => c != ' ') = true) rfl rfl passes
    dsimp only
    rw [if_neg (wide _)]
    rw [Regex.Match.group, groups, atEnd.lookup_of_avoids rfl, content.lookup_of_avoids rfl,
      gap.lookup_of_avoids rfl]
    exact large
  · split
    · rename_i m matched
      rcases fullMatch_eq_some matched with ⟨final, passes, _, groups⟩
      cases passes with | seq passes atEnd
      cases passes with | seq passes content
      cases passes with | seq passes gap
      cases passes with | seq passes dot
      have large := indent_of_marks (by decide : (Regex.group 2 (.some_ (.one digits))).opens
        (fun c => c != ' ') = true) rfl rfl passes
      dsimp only
      rw [if_neg (wide _)]
      rw [Regex.Match.group, groups, atEnd.lookup_of_avoids rfl, content.lookup_of_avoids rfl,
        gap.lookup_of_avoids rfl, dot.lookup_of_avoids rfl]
      exact large
    · rfl

theorem isSeparator_of_code {line : Text} (code : isCode line = true) {c : Char}
    (member : c ∈ indented line) : isSeparator c = false ∧ c ≠ '\t' := by
  rcases List.mem_append.mp member with margin | inside
  · have space_ : c = ' ' := by simpa using margin
    subst space_
    exact ⟨rfl, by decide⟩
  · rw [isCode, Bool.and_eq_true, List.all_eq_true] at code
    have plain := code.1 c inside
    refine ⟨?_, ?_⟩
    · rw [isSeparator]
      simp only [Bool.or_eq_false_iff, beq_eq_false_iff_ne]
      refine ⟨⟨?_, ?_⟩, ?_⟩
      · rintro rfl
        cases plain
      · rintro rfl
        cases plain
      · rintro rfl
        cases plain
    · rintro rfl
      cases plain

theorem noHtml_indented {line : Text} (code : isCode line = true) : NoHtml (indented line) := by
  have oneLine := fun c member => (@isSeparator_of_code line code c member).1
  refine ⟨?_, ?_, ?_, noReference_indented line⟩
  · exact fullMatch_eq_none_of_opens (by decide : cHtmlTokenStart.opens (fun c => c == '<') = true) rfl
  · exact search_lineStart_eq_none (by decide : cHtmlTokenExpression.opens (fun c => c == '<') = true) rfl
      oneLine
  · exact search_lineStart_eq_none (by decide : (Regex.word "<!--".toList).opens (fun c => c == '<') = true)
      rfl oneLine

theorem lineToken_indented {line : Text} (code : isCode line = true) :
    lineToken (indented line) = .rawText (indented line) := by
  rw [lineToken, isBlankLine, noBlank_indented code]
  rfl

/-! ## The block -/

theorem isCodeBlockLine_indented {line : Text} (code : isCode line = true) (rest : List Token) :
    isCodeBlockLine (lineToken (indented line) :: rest) = some (line, rest) := by
  rw [lineToken_indented code]
  rfl

/-- The tokens for lines of code. -/
def codeTokens (lines : List Text) : List Token := (lines.map indented).map lineToken

theorem codeBlockLoop_indented {lines : List Text} (code : forall line, line ∈ lines -> isCode line = true) :
    codeBlockLoop (codeTokens lines) = (terminated ['\n'] lines, []) := by
  induction lines with
  | nil =>
      rw [codeBlockLoop]
      rfl
  | cons line rest inductionHypothesis =>
      have here := isCodeBlockLine_indented (code line List.mem_cons_self) (codeTokens rest)
      have later := inductionHypothesis fun other member => code other (List.mem_cons_of_mem line member)
      rw [codeTokens, List.map_cons, List.map_cons, ← codeTokens, codeBlockLoop]
      split
      · rename_i found
        rw [here] at found
        cases found
      · rename_i found
        rw [here] at found
        cases found
        rw [later, terminated, terminated, List.flatMap_cons, List.append_assoc]
        rfl

theorem noBlock_indented (line : Text) : NoBlock (indented line) := by
  refine ⟨?_, ?_, noRule_indented line, noList_indented line, noQuote_indented line⟩
  · exact fullMatch_eq_none_of_opens (by decide : cHashHeaders.opens (fun c => c != ' ') = true) rfl
  · exact fullMatch_eq_none_of_opens (by decide : cUnderlinedHeaders.opens (fun c => c != ' ') = true) rfl

theorem noUnderline_codeTokens {lines : List Text} (code : forall line, line ∈ lines -> isCode line = true) :
    NoUnderline (codeTokens lines) := by
  cases lines with
  | nil => exact fun token first => absurd first.symm (Option.some_ne_none token)
  | cons line rest =>
      intro token first
      obtain rfl := Option.some.inj first
      rw [lineToken_indented (code line List.mem_cons_self)]
      exact (noBlock_indented line).underline

theorem codeTokens_cons {line : Text} (code : isCode line = true) (lines : List Text) :
    codeTokens (line :: lines) = .rawText (indented line) :: codeTokens lines := by
  rw [codeTokens, List.map_cons, List.map_cons, lineToken_indented code]
  rfl

theorem parseBlock_indented {line : Text} {lines : List Text}
    (code : forall other, other ∈ line :: lines -> isCode other = true) (rounds : Nat) :
    parseBlock (rounds + 1) (codeTokens (line :: lines)) =
      .ok (some (.text .codeBlock (terminated ['\n'] (line :: lines)), [])) := by
  have here := code line List.mem_cons_self
  have others := fun other member => code other (List.mem_cons_of_mem line member)
  have first := isCodeBlockLine_indented here (codeTokens lines)
  rw [lineToken_indented here] at first
  rw [codeTokens_cons here, parseBlock_noBlock (noBlock_indented line) (noUnderline_codeTokens others),
    parseCodeBlock, first]
  dsimp only
  rw [codeBlockLoop_indented others, terminated, terminated, List.flatMap_cons, List.append_assoc]
  rfl

theorem processBlocksItems_indented {lines : List Text} (nonempty : lines ≠ [])
    (code : forall line, line ∈ lines -> isCode line = true) (rounds : Nat) :
    processBlocksItems (rounds + 2) (codeTokens lines) = .ok [.text .codeBlock (terminated ['\n'] lines)] := by
  cases lines with
  | nil => exact absurd rfl nonempty
  | cons line rest =>
      have found := parseBlock_indented code rounds
      rw [codeTokens_cons (code line List.mem_cons_self)] at found ⊢
      have holds : (Token.rawText (indented line)).text?.isSome = true := rfl
      rw [processBlocksItems.eq_def]
      dsimp only
      rw [if_pos holds, found]
      rfl

/-- Indented lines are converted to one block of code.  It shows the lines as they are,
once its character references are decoded. -/
theorem convert_verbatim {ending : Text} (known : ending ∈ lineEndings) {lines : List Text}
    (nonempty : lines ≠ []) (code : forall line, line ∈ lines -> isCode line = true) {rounds : Nat}
    (enough : 1 < rounds) :
    Exists fun shown : Text => convert rounds (terminated ending (lines.map indented)) =
        .ok ("<pre><code>".toList ++ shown ++ "</code></pre>\n\n".toList) ∧
      '<' ∉ shown ∧ decodeReferences shown = terminated ['\n'] lines := by
  have each : forall {property : Text -> Prop}, (forall line, isCode line = true -> property (indented line)) ->
      forall text, text ∈ lines.map indented -> property text := by
    intro property holds text member
    rcases List.mem_map.mp member with ⟨line, listed, rfl⟩
    exact holds line (code line listed)
  have oneLine : forall line, isCode line = true -> OneLine (indented line) := by
    intro line here
    refine ⟨fun member => ?_, fun member => ?_⟩
    · exact absurd (isSeparator_of_code here member).1 (by decide)
    · exact absurd (isSeparator_of_code here member).1 (by decide)
  have noTab : forall line, isCode line = true -> '\t' ∉ indented line :=
    fun line here member => (isSeparator_of_code here member).2 rfl
  have noHtml := each fun line here => noHtml_indented here
  refine ⟨encodeString .code (terminated ['\n'] lines), ?_, notMem_encodeString (Or.inr rfl),
    decodeReferences_encodeString _⟩
  match rounds, enough with
  | rounds + 2, _ =>
      have processed : process (rounds + 2) (read (terminated ending (lines.map indented))) =
          .ok [.text .codeBlock (terminated ['\n'] lines)] := by
        rw [process, read_lines known (each oneLine) (each noTab), mergeMultilineHtmlTags_lines noHtml,
          processInlineHtmlAndReferences_lines noHtml]
        dsimp only
        rw [← codeTokens, processBlocksItems_indented nonempty code]
        rfl
      rw [convert, processed]
      change Except.ok (("<pre><code>".toList ++ encodeString .code _ ++ "</code></pre>\n\n".toList) ++ []) = _
      rw [List.append_nil]

/-- A line of markup, and one of HTML. -/
theorem convert_verbatim_markup :
    Exists fun shown : Text =>
      convert 2 (terminated ['\n'] (["* **a** [b](c)".toList, "<i>&amp;</i>".toList].map indented)) =
        .ok ("<pre><code>".toList ++ shown ++ "</code></pre>\n\n".toList) ∧
      '<' ∉ shown ∧ decodeReferences shown = "* **a** [b](c)\n<i>&amp;</i>\n".toList := by
  apply convert_verbatim (by decide) (List.cons_ne_nil _ _)
  · intro line listed
    simp only [List.mem_cons, List.not_mem_nil, or_false] at listed
    rcases listed with rfl | rfl
    · decide
    · decide
  · exact Nat.lt_succ_self 1

end Markdown
end Webserver
