import Webserver.Markdown.InlineHtml
import Webserver.Markdown.Emphasis

namespace Webserver
namespace Markdown

/-!
# Spans

The text of a paragraph goes through five passes.  Each of the first four takes
something out of the text and leaves a placeholder with a number; the number is a
position in the table of replacements or, behind `#`, in the list of characters that
can be escaped.  The last pass puts the tokens in the places of the placeholders.
-/

abbrev ReplacementTable := List Token

/-- `\x01@`, the number, `@`, a name and `\x01`. -/
def placeholder (number : Text) (name : Text) : Text :=
  "\x01@".toList ++ number ++ '@' :: name ++ ['\x01']

/-- The placeholder for the next entry of the table. -/
def nextPlaceholder (replacements : ReplacementTable) (name : Text) : Text :=
  placeholder (Nat.toDigits 10 replacements.length) name

/-- `\x01@(#?[0-9]*)@.+?\x01` -/
def cReplaced : Regex :=
  .word "\x01@".toList ++ .group 1 (.maybe (.word ['#']) ++ .many (.one digits)) ++ .word ['@'] ++
    .lazySome anything ++ .word ['\x01']

/-- `boost::lexical_cast<size_t>`, on digits. -/
def lexicalCast (text : Text) : Except Fault Nat :=
  if text ≠ [] ∧ Nat.ofDigitChars 10 text 0 < 18446744073709551616 then .ok (Nat.ofDigitChars 10 text 0)
  else .error .badLexicalCast

/-- What stands behind a placeholder: an escaped character, a token, or nothing. -/
inductive Replaced where
  | escaped (c : Char)
  | item (token : Token)
  | nothing

def lookUp (replacements : ReplacementTable) (ref : Text) : Except Fault Replaced :=
  if ref.head? = some '#' then do
    let n <- lexicalCast ref.tail
    let c <- escapedCharacter n
    .ok (.escaped c)
  else if ref ≠ [] then do
    let n <- lexicalCast ref
    match replacements[n]? with
    | some token => .ok (.item token)
    | none => .error .assertionFailed
  else .ok .nothing

/-- Handle the matches of an expression one after the other; the text before each match
is copied. -/
def substitute (regex : Regex) (replace : Regex.Match -> ReplacementTable ->
      Except Fault (Text × ReplacementTable)) (src : Text) (replacements : ReplacementTable) :
    Except Fault (Text × ReplacementTable) := do
  let found := regex.matches_ src
  let (tgt, replacements) <- found.1.foldlM (fun (tgt, replacements) m => do
    let (text, replacements) <- replace m replacements
    .ok (tgt ++ m.before ++ text, replacements)) (([] : Text), replacements)
  .ok (tgt ++ found.2, replacements)

def restoreProcessedItems (src : Text) (replacements : ReplacementTable) : Except Fault Text := do
  let (text, _) <- substitute cReplaced (fun m replacements => do
    match <- lookUp replacements (m.group 1) with
    | .escaped c => .ok (['\\', c], replacements)
    | .item token => .ok (token.writeAsOriginal, replacements)
    | .nothing => .ok ([], replacements)) src replacements
  .ok text

/-! ## The passes -/

/-- `= ?("|').*?\1` -/
def cAttributeStrings : Regex :=
  .word ['='] ++ .maybe space ++ .group 1 (.one (.oneOf ['"', '\''])) ++ .lazyMany anything ++
    .backReference 1

/-- The tags with one attribute or more. -/
def cHtmlToken : Regex := tagExpression (.lazySome (attributeExpression 4 5)) ++ .word ['>']

def processHtmlTagAttributes (src : Text) (replacements : ReplacementTable) :
    Except Fault (Text × ReplacementTable) :=
  substitute cHtmlToken (fun m replacements =>
    if isValidTag (m.group 3) false ≠ 0 then
      substitute cAttributeStrings (fun attribute_ replacements =>
        .ok (nextPlaceholder replacements "htmlTagAttr".toList,
          replacements ++ [.text (.textHolder false .tag) attribute_.whole])) m.whole replacements
    else .ok (m.whole, replacements)) src replacements

/-- `(?:^|(?<=[^\\]))` -/
def notEscaped : Regex := .alt .lineStart (.behind (.noneOf ['\\']))

/-- The two forms of a code span: ` `` (.+?) `` ` and `` `(.+?)` `` -/
def cCodeSpan : List Regex :=
  [notEscaped ++ .word "`` ".toList ++ .group 1 (.lazySome anything) ++ .word " ``".toList,
    notEscaped ++ .word ['`'] ++ .group 1 (.lazySome anything) ++ .word ['`']]

def processCodeSpans (src : Text) (replacements : ReplacementTable) :
    Except Fault (Text × ReplacementTable) :=
  cCodeSpan.foldlM (fun (src, replacements) expression =>
    substitute expression (fun m replacements => do
      let contents <- restoreProcessedItems (m.group 1) replacements
      .ok (nextPlaceholder replacements "codeSpan".toList,
        replacements ++ [.text .codeSpan contents])) src replacements) (src, replacements)

def processEscapedCharacters : Text -> Text
  | [] => []
  | c :: rest =>
      if c = '\\' then
        match rest with
        | [] => ['\\']
        | next :: later =>
            (match isEscapedCharacter next with
            | some e => placeholder ('#' :: Nat.toDigits 10 e) "escaped".toList
            | none => ['\\', next]) ++ processEscapedCharacters later
      else c :: processEscapedCharacters rest

/-- `(?:(!?)\[([^\]]+?)\] *\(([^\(]*(?:\(.*?\).*?)*?)\))` -/
def inlineLink : Regex :=
  .group 1 (.maybe (.word ['!'])) ++ .word ['['] ++
    .group 2 (.lazySome (.one (.noneOf [']']))) ++ .word [']'] ++ .many space ++ .word ['('] ++
    .group 3 (.many (.one (.noneOf ['('])) ++
      .lazyMany (.word ['('] ++ .lazyMany anything ++ .word [')'] ++ .lazyMany anything)) ++
    .word [')']

/-- `(?:(!?)\[((?:[^]]*?\[.*?\].*?)|(?:.+?))\](?: *\[(.*?)\])?)` -/
def referenceLink : Regex :=
  .group 4 (.maybe (.word ['!'])) ++ .word ['['] ++
    .group 5 (.alt
      (.lazyMany (.one (.noneOf [']'])) ++ .word ['['] ++ .lazyMany anything ++ .word [']'] ++
        .lazyMany anything)
      (.lazySome anything)) ++ .word [']'] ++
    .maybe (.many space ++ .word ['['] ++ .group 6 (.lazyMany anything) ++ .word [']'])

/-- `(?:<(/?([a-zA-Z0-9]+).*?)>)` -/
def potentialTag : Regex :=
  .word ['<'] ++ .group 7 (.maybe (.word ['/']) ++ .group 8 (.some_ (.one alphanumerics)) ++
    .lazyMany anything) ++ .word ['>']

def cLinkExpression : Regex := .alt inlineLink (.alt referenceLink potentialTag)

/-- `^<?([^ >]*)>?(?: *(?:('|")(.*)\2)|(?:\((.*)\)))? *$` -/
def cUrlAndTitle : Regex :=
  .lineStart ++ .maybe (.word ['<']) ++ .group 1 (.many (.one (.noneOf [' ', '>']))) ++
    .maybe (.word ['>']) ++
    .maybe (.alt (.many space ++ quotedText 2 3) (parenthesizedText 4)) ++ .many space ++ .lineEnd

/-- The target of a link or an image, if it can be resolved. -/
def resolveTarget (idTable : LinkIds) (isReference : Bool) (m : Regex.Match) : Option Target :=
  if isReference then
    let linkId := m.group 6
    idTable.find (if linkId = [] then cleanTextLinkRef (m.group 5) else linkId)
  else
    (cUrlAndTitle.fullMatch (m.group 3)).map (fun parts =>
      ⟨parts.group 1, if parts.matched 3 then parts.group 3 else parts.group 4⟩)

/-- An automatic link. -/
def autoLink (url contents : Text) : Token :=
  .container .container [.htmlAnchorTag url [], .text (.rawText false) contents,
    .text .htmlTag "/a".toList]

/-- The token for an HTML tag or an automatic link. -/
def tagToken (m : Regex.Match) (replacements : ReplacementTable) : Except Fault Token :=
  let contents := m.group 7
  if looksLikeUrl contents then .ok (autoLink contents contents)
  else if looksLikeEmailAddress contents then
    .ok (autoLink (emailEncode ("mailto:".toList ++ contents)) (emailEncode contents))
  else if isValidTag (m.group 8) false ≠ 0 then do
    let contents <- restoreProcessedItems contents replacements
    .ok (.text .htmlTag contents)
  else .ok (.rawText m.whole)

/-- What one match becomes: the text in its place, the new entries of the table, and
what is searched next. -/
structure LinkStep where
  text : Text
  replacements : List Token
  rest : Text

def linkStep (idTable : LinkIds) (m : Regex.Match) (replacements : ReplacementTable) :
    Except Fault LinkStep :=
  let first := nextPlaceholder replacements "links&Images1".toList
  let isReferenceImage := m.matched 4 && 0 < (m.group 4).length
  let isImage := isReferenceImage || (m.matched 1 && 0 < (m.group 1).length)
  let isReference := isReferenceImage || (!isImage && m.matched 5)
  let isLink := !isImage && (m.matched 5 || m.matched 2)
  if isImage || isLink then
    let contentsOrAlttext := if isReference then m.group 5 else m.group 2
    match resolveTarget idTable isReference m with
    | none =>
        -- The first character is encoded as it is, and the search goes on behind it.
        .ok ⟨first, [.rawText (m.whole.take 1)], m.whole.drop 1 ++ m.after⟩
    | some target =>
        if isImage then .ok ⟨first, [.image contentsOrAlttext target.url target.title], m.after⟩
        else
          let anchor := Token.htmlAnchorTag target.url target.title
          .ok ⟨first ++ contentsOrAlttext ++
              nextPlaceholder (replacements ++ [anchor]) "links&Images2".toList,
            [anchor, .text .htmlTag "/a".toList], m.after⟩
  else do
    let token <- tagToken m replacements
    .ok ⟨first, [token], m.after⟩

/-- The loop of `_processLinksImagesAndTags`; every step passes a character of the
text, so the length of the text is enough for its rounds. -/
def linkLoop (idTable : LinkIds) :
    Nat -> Text -> ReplacementTable -> Except Fault (Text × ReplacementTable)
  | 0, src, replacements => .ok (src, replacements)
  | rounds + 1, src, replacements =>
      match cLinkExpression.search src with
      | none => .ok (src, replacements)
      | some m => do
          let step <- linkStep idTable m replacements
          let (tgt, replacements) <-
            linkLoop idTable rounds step.rest (replacements ++ step.replacements)
          .ok (m.before ++ step.text ++ tgt, replacements)

def processLinksImagesAndTags (idTable : LinkIds) (src : Text) (replacements : ReplacementTable) :
    Except Fault (Text × ReplacementTable) :=
  linkLoop idTable src.length src replacements

/-- The tokens of a text with placeholders. -/
def encodeProcessedItems (replacements : ReplacementTable) (src : Text) :
    Except Fault (List Token) := do
  let found := cReplaced.matches_ src
  let tokens <- found.1.flatMapM (fun m => do
    let replaced <- lookUp replacements (m.group 1)
    .ok (rawTokens m.before ++ (match replaced with
      | .escaped c => [.escapedCharacter c]
      | .item token => [token]
      | .nothing => [])))
  .ok (tokens ++ rawTokens found.2)

def processBoldAndItalicSpans (rounds : Nat) (src : Text) (replacements : ReplacementTable) :
    Except Fault (List Token) := do
  let tokens <- processMarkers rounds (readMarkers src)
  tokens.flatMapM (fun token =>
    if token.canContainMarkup then
      match token.text? with
      | some text => encodeProcessedItems replacements text
      | none => .ok [token]
    else .ok [token])

/-- `RawText::processSpanElements`, on a text that can contain markup. -/
def processSpans (rounds : Nat) (idTable : LinkIds) (text : Text) : Except Fault (List Token) := do
  let (str, replacements) <- processHtmlTagAttributes text []
  let (str, replacements) <- processCodeSpans str replacements
  let (str, replacements) <-
    processLinksImagesAndTags idTable (processEscapedCharacters str) replacements
  processBoldAndItalicSpans rounds str replacements

end Markdown
end Webserver
