import Webserver.Markdown.Absence

namespace Webserver
namespace Markdown

open Regex

/-!
# Tokens without HTML of their own

`Tame` says of a text that every `<` in it begins one of the tags that the converter
writes for some markup.  A token whose texts have no `<` writes such a text.
-/

/-- How the tags begin that the converter writes. -/
def tagStarts : List Text :=
  ["<p>", "</p>", "<br/>", "<hr/>", "<h1>", "</h1>", "<h2>", "</h2>", "<h3>", "</h3>", "<h4>", "</h4>",
    "<h5>", "</h5>", "<h6>", "</h6>", "<ul>", "</ul>", "<ol>", "</ol>", "<li>", "</li>", "<blockquote>",
    "</blockquote>", "<pre>", "</pre>", "<code>", "</code>", "<em>", "</em>", "<strong>", "</strong>",
    "<a href=\"", "</a>", "<img src=\""].map String.toList

/-- Every `<` begins one of these tags. -/
def Tame : Text -> Prop
  | [] => True
  | c :: rest => (c = '<' -> Exists fun tag : Text => tag ∈ tagStarts ∧ tag <+: c :: rest) ∧ Tame rest

instance tameDecidable : (html : Text) -> Decidable (Tame html)
  | [] => .isTrue trivial
  | c :: rest =>
      have := tameDecidable rest
      decidable_of_iff ((c = '<' -> tagStarts.any (fun tag => tag.isPrefixOf (c :: rest)) = true) ∧ Tame rest)
        (by simp only [Tame, List.any_eq_true, List.isPrefixOf_iff_prefix])

namespace Tame

theorem append {first second : Text} (tame : Tame first) (tameToo : Tame second) :
    Tame (first ++ second) := by
  induction first with
  | nil => exact tameToo
  | cons c rest inductionHypothesis =>
      refine ⟨fun opens => ?_, inductionHypothesis tame.2⟩
      rcases tame.1 opens with ⟨tag, own, starts⟩
      exact ⟨tag, own, starts.trans (List.prefix_append (c :: rest) second)⟩

theorem of_notMem {html : Text} (absent : '<' ∉ html) : Tame html := by
  induction html with
  | nil => exact trivial
  | cons c rest inductionHypothesis =>
      rcases not_or.mp (fun member => absent (List.mem_cons.mpr member)) with ⟨other, onward⟩
      exact ⟨fun opens => absurd opens.symm other, inductionHypothesis onward⟩

/-- Wherever there is a `<`, one of the tags begins. -/
theorem starts {html before after : Text} (tame : Tame html) (here : html = before ++ '<' :: after) :
    Exists fun tag : Text => tag ∈ tagStarts ∧ tag <+: '<' :: after := by
  subst here
  induction before with
  | nil => exact tame.1 rfl
  | cons c rest inductionHypothesis => exact inductionHypothesis tame.2

end Tame

/-! ## Encoding -/

/-- The characters of the character references. -/
def referenceCharacters : Text := "&ampltgquo;".toList

/-- Where angles are encoded, no `<` is left; no character comes from anywhere else. -/
theorem mem_encodeString {flags : EncodingFlags} {symbol : Char} {text : Text}
    (member : symbol ∈ encodeString flags text) :
    symbol ∈ referenceCharacters ∨ (symbol ∈ text ∧ (symbol = '<' -> flags.angles = false)) := by
  induction text with
  | nil => cases member
  | cons c rest inductionHypothesis =>
      have reference : forall word : Text, word ⊆ referenceCharacters -> symbol ∈ word ->
          symbol ∈ referenceCharacters ∨ (symbol ∈ c :: rest ∧ (symbol = '<' -> flags.angles = false)) :=
        fun word inside member => Or.inl (inside member)
      rw [encodeString] at member
      rcases List.mem_append.mp member with here | later
      · split at here
        · rename_i ampersand
          split at here
          · refine Or.inr ⟨?_, fun opens => ?_⟩
            · exact List.mem_singleton.mp here ▸ List.mem_cons_self
            · rw [List.mem_singleton.mp here] at opens
              rw [opens] at ampersand
              cases ampersand
          · exact reference _ (by decide) here
        · split at here
          · exact reference _ (by decide) here
          · split at here
            · exact reference _ (by decide) here
            · rename_i noAngle
              split at here
              · exact reference _ (by decide) here
              · split at here
                · exact reference _ (by decide) here
                · refine Or.inr ⟨?_, fun opens => ?_⟩
                  · exact List.mem_singleton.mp here ▸ List.mem_cons_self
                  · rw [List.mem_singleton.mp here] at opens
                    rw [opens] at noAngle
                    exact Bool.eq_false_iff.mpr noAngle
      · rcases inductionHypothesis later with early | ⟨inside, free⟩
        · exact Or.inl early
        · exact Or.inr ⟨List.mem_cons_of_mem c inside, free⟩

theorem notMem_encodeString {flags : EncodingFlags} {text : Text}
    (free : '<' ∉ text ∨ flags.angles = true) : '<' ∉ encodeString flags text := by
  intro member
  rcases mem_encodeString member with reference | ⟨inside, noAngles⟩
  · exact absurd reference (by decide)
  · rcases free with absent | angles
    · exact absent inside
    · exact absurd ((noAngles rfl).symm.trans angles) Bool.false_ne_true

/-! ## Tokens -/

/-- The token writes no tags but the converter's own. -/
def Token.Tame (token : Token) : Prop := Markdown.Tame token.writeAsHtml

theorem tame_wrapped {before text after : Text} (front : Tame before) (inside : '<' ∉ text)
    (back : Tame after) : Tame (before ++ text ++ after) :=
  (front.append (.of_notMem inside)).append back

theorem tame_headerTags : forall level : Nat, level < 7 -> 1 ≤ level ->
    Tame ("<h".toList ++ Nat.toDigits 10 level ++ ['>']) ∧
      Tame ("</h".toList ++ Nat.toDigits 10 level ++ ">\n".toList) := by
  decide

/-- A text is written between tags, with its angles encoded if it could have any. -/
theorem tame_text {kind : TextKind} {text : Text} (absent : '<' ∉ text) (own : kind.Own text) :
    (Token.text kind text).Tame := by
  have written : '<' ∉ (if kind.encodingFlags ≠ .none then encodeString kind.encodingFlags text
      else text) := by
    split
    · exact notMem_encodeString (Or.inl absent)
    · exact absent
  change Tame (kind.preWrite ++ _ ++ kind.postWrite)
  cases kind with
  | htmlTag =>
      simp only [TextKind.Own, ownTags, List.mem_cons, List.not_mem_nil, or_false] at own
      rcases own with rfl | rfl | rfl
      · decide
      · decide
      · decide
  | header level =>
      rcases tame_headerTags level (Nat.lt_succ_of_le own.2) own.1 with ⟨front, back⟩
      exact tame_wrapped front written back
  | textHolder canContainMarkup flags => exact tame_wrapped trivial written trivial
  | rawText canContainMarkup => exact tame_wrapped trivial written trivial
  | htmlAnchorTag => exact tame_wrapped trivial written trivial
  | inlineHtmlContents => exact tame_wrapped trivial written trivial
  | inlineHtmlComment => exact tame_wrapped trivial written trivial
  | codeBlock => exact tame_wrapped (by decide) written (by decide)
  | codeSpan => exact tame_wrapped (by decide) written (by decide)
  | blankLine => exact tame_wrapped trivial written trivial

/-- A span of code is encoded whatever it contains. -/
theorem tame_codeSpan (text : Text) : (Token.text .codeSpan text).Tame :=
  tame_wrapped (by decide : Tame "<code>".toList) (notMem_encodeString (Or.inr rfl))
    (by decide : Tame "</code>".toList)

theorem tame_writeAll {tokens : List Token} (each : forall token, token ∈ tokens -> token.Tame) :
    Tame (Token.writeAllAsHtml tokens) := by
  induction tokens with
  | nil => exact trivial
  | cons token rest inductionHypothesis =>
      exact (each token List.mem_cons_self).append
        (inductionHypothesis fun other member => each other (List.mem_cons_of_mem token member))

theorem tame_container (kind : ContainerKind) {tokens : List Token}
    (each : forall token, token ∈ tokens -> token.Tame) : (Token.container kind tokens).Tame := by
  have literal : Tame kind.preWrite ∧ Tame kind.postWrite := by
    cases kind with
    | listItem inhibitParagraphs => exact ⟨(by decide : Tame "<li>".toList), (by decide : Tame "</li>\n".toList)⟩
    | _ => decide
  exact (literal.1.append (tame_writeAll each)).append literal.2

theorem tame_htmlAnchorTag {url title : Text} (absent : '<' ∉ url) (absentToo : '<' ∉ title) :
    (Token.htmlAnchorTag url title).Tame := by
  have address : '<' ∉ encodeString .attribute_ url := notMem_encodeString (Or.inl absent)
  have name : '<' ∉ encodeString .attribute_ title := notMem_encodeString (Or.inl absentToo)
  have titled : Tame (if title = [] then [] else
      " title=\"".toList ++ encodeString .attribute_ title ++ "\"".toList) := by
    split
    · exact trivial
    · exact tame_wrapped (by decide) name (by decide)
  have whole := ((tame_wrapped (by decide : Tame "<a href=\"".toList) address
    (by decide : Tame "\"".toList)).append titled).append (by decide : Tame ">".toList)
  have nothing : Tame [] := trivial
  exact (nothing.append whole).append nothing

theorem tame_image {altText url title : Text} (absent : '<' ∉ altText) (absentToo : '<' ∉ url)
    (noTitle : '<' ∉ title) : (Token.image altText url title).Tame := by
  have titled : Tame (if title = [] then [] else " title=\"".toList ++ title ++ "\"".toList) := by
    split
    · exact trivial
    · exact tame_wrapped (by decide) noTitle (by decide)
  have source := tame_wrapped (by decide : Tame "<img src=\"".toList) absentToo
    (by decide : Tame "\" alt=\"".toList)
  exact (((source.append (.of_notMem absent)).append (by decide : Tame "\"".toList)).append titled).append
    (by decide : Tame "/>".toList)

end Markdown
end Webserver
