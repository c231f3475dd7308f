import Webserver.Markdown.Lines

namespace Webserver
namespace Markdown

/-!
# Inline HTML and link references

The first two passes over the lines: an HTML tag that spans two lines is joined,
then blocks of HTML become tokens of their own and the definitions of links are
moved into a table.

A function of the source that moves an iterator takes the tokens from the
iterator's place on and returns those from its new place on.
-/

/-! ## HTML tags -/

/-- `( +[a-zA-Z0-9]+?(?: ?= ?("|').*?\5))`, with its two group numbers. -/
def attributeExpression (attribute_ quote : Nat) : Regex :=
  .group attribute_ (.some_ space ++ .lazySome (.one alphanumerics) ++
    (.maybe space ++ .word ['='] ++ .maybe space ++ .group quote (.one (.oneOf ['"', '\''])) ++
      .lazyMany anything ++ .backReference quote))

/-- `<((/?)([a-zA-Z0-9]+)(?:` attributes ` */? *))`, without what closes the tag. -/
def tagExpression (attributes : Regex) : Regex :=
  .word ['<'] ++ .group 1 (.group 2 (.maybe (.word ['/'])) ++
    .group 3 (.some_ (.one alphanumerics)) ++
    (attributes ++ .many space ++ .maybe (.word ['/']) ++ .many space))

def cHtmlTokenExpression : Regex :=
  tagExpression (.lazyMany (attributeExpression 4 5)) ++ .word ['>']

def cStartHtmlTokenExpression : Regex := .lineStart ++ cHtmlTokenExpression

def cOneHtmlTokenExpression : Regex := .lineStart ++ cHtmlTokenExpression ++ .lineEnd

structure HtmlTagInfo where
  tagName : Text
  extra : Text
  isClosingTag : Bool
  lengthOfToken : Nat

/-- With `alone`, for `cAlone`; without, for `cStarts`. -/
def parseHtmlTag (alone : Bool) (text : Text) : Option HtmlTagInfo :=
  ((if alone then cOneHtmlTokenExpression else cStartHtmlTokenExpression).search text).map (fun m =>
    ⟨m.group 3, m.group 4, 0 < (m.group 2).length, m.whole.length⟩)

def parseInlineHtmlText (src : Text) : List Token :=
  let found := cHtmlTokenExpression.matches_ src
  found.1.flatMap (fun m =>
    (if m.before = [] then [] else [.text .inlineHtmlContents m.before]) ++
      [.text .htmlTag (m.group 1)]) ++
    [.text .inlineHtmlContents (found.2 ++ ['\n'])]

/-- `^<!--` -/
def isHtmlCommentStart (text : Text) : Bool :=
  ((.lineStart ++ .word "<!--".toList : Regex).search text).isSome

/-- `.*-- *>$` -/
def isHtmlCommentEnd (text : Text) : Bool :=
  ((.many anything ++ .word "--".toList ++ .many space ++ .word ['>'] ++ .lineEnd : Regex).fullMatch
    text).isSome

/-- Whether a line ends its block: it comes last, or before a blank line, and then it
is the first line or closes the block. -/
def endsBlock (closes : Text -> Bool) (isFirst : Bool) (token : Token) : List Token -> Bool
  | [] => true
  | next :: _ => next.isBlankLine && token.text?.any (fun text => isFirst || closes text)

/-- The loops of `parseInlineHtml` over the lines of a block: what the block contains,
the tokens from its last line on, and its number of lines. -/
def htmlBlockLoop (contentsOf : Token -> List Token) (closes : Text -> Bool) :
    Bool -> List Token -> List Token × List Token × Nat
  | _, [] => ([], [], 0)
  | isFirst, token :: rest =>
      if endsBlock closes isFirst token rest then (contentsOf token, token :: rest, 1)
      else
        let later := htmlBlockLoop contentsOf closes false rest
        (contentsOf token ++ later.1, later.2.1, later.2.2 + 1)

def tagContents (token : Token) : List Token :=
  match token.text? with
  | some text => parseInlineHtmlText text
  | none => [token]

def commentContents (token : Token) : List Token :=
  match token.text? with
  | some text => [.text .inlineHtmlComment (text ++ ['\n'])]
  | none => [token]

/-- A block of HTML, and the tokens from its last line on. -/
def parseInlineHtml : List Token -> Option (Token × List Token)
  | [] => none
  | token :: rest =>
      match token.text? with
      | none => none
      | some line =>
          let tagInfo := parseHtmlTag false line
          if tagInfo.any (fun info => 1 < isValidTag info.tagName false) then
            let block := htmlBlockLoop tagContents (fun text => (parseHtmlTag true text).isSome)
              true (token :: rest)
            if 1 < block.2.2 || tagInfo.any (fun info => 1 < isValidTag info.tagName true) then
              some (.container .inlineHtmlBlock block.1, block.2.1)
            else none
          else if isHtmlCommentStart line then
            let block := htmlBlockLoop commentContents isHtmlCommentEnd true (token :: rest)
            some (.container .inlineHtmlBlock block.1, block.2.1)
          else none

/-! ## References -/

structure Target where
  url : Text
  title : Text
deriving DecidableEq

structure LinkIds where
  table : List (Text × Target)

namespace LinkIds

def scrubKey (str : Text) : Text := str.map Char.toLower

def find (ids : LinkIds) (id : Text) : Option Target := ids.table.lookup (scrubKey id)

/-- `insert` leaves an entry that is there as it is. -/
def add (ids : LinkIds) (id url title : Text) : LinkIds :=
  match ids.find id with
  | some _ => ids
  | none => ⟨ids.table ++ [(scrubKey id, ⟨url, title⟩)]⟩

end LinkIds

/-- `('|")(.*)\n`, with the number of the first group; the text is the second. -/
def quotedText (quote text : Nat) : Regex :=
  .group quote (.one (.oneOf ['\'', '"'])) ++ .group text (.many anything) ++ .backReference quote

/-- `(?:\((.*)\))` -/
def parenthesizedText (text : Nat) : Regex :=
  .word ['('] ++ .group text (.many anything) ++ .word [')']

/-- `^ {0,3}\[(.+)\]: +<?([^ >]+)>?(?: *(?:('|")(.*)\3)|(?:\((.*)\)))?$` -/
def cReference : Regex :=
  .lineStart ++ .upTo 3 space ++ .word ['['] ++ .group 1 (.some_ anything) ++ .word "]:".toList ++
    .some_ space ++ .maybe (.word ['<']) ++ .group 2 (.some_ (.one (.noneOf [' ', '>']))) ++
    .maybe (.word ['>']) ++
    .maybe (.alt (.many space ++ quotedText 3 4) (parenthesizedText 5)) ++ .lineEnd

/-- `^ *(?:(?:('|")(.*)\1)|(?:\((.*)\))) *$` -/
def cSeparateTitle : Regex :=
  .lineStart ++ .many space ++ .alt (quotedText 1 2) (parenthesizedText 3) ++ .many space ++ .lineEnd

/-- A definition of a link, added to the table, and the tokens from its last line on. -/
def parseReference (idTable : LinkIds) : List Token -> Option (LinkIds × List Token)
  | [] => none
  | token :: rest =>
      match token.text?.bind cReference.fullMatch with
      | none => none
      | some m =>
          let id := m.group 1
          let url := m.group 2
          if m.matched 4 then some (idTable.add id url (m.group 4), token :: rest)
          else if m.matched 5 then some (idTable.add id url (m.group 5), token :: rest)
          else
            -- The title could be on the next line.
            match rest with
            | [] => some (idTable.add id url [], token :: rest)
            | next :: _ =>
                match next.text?.bind cSeparateTitle.fullMatch with
                | none => some (idTable.add id url [], token :: rest)
                | some title =>
                    some (idTable.add id url (if title.matched 2 then title.group 2 else title.group 3),
                      rest)

/-! ## The passes -/

def cHtmlTokenStart : Regex := tagExpression (.lazyMany (attributeExpression 4 5)) ++ .lineEnd

/-- `^ *((?:( +[a-zA-Z0-9]+?(?: ?= ?("|').*?\3))*? */? *))>` -/
def cHtmlTokenEnd : Regex :=
  .lineStart ++ .many space ++ .group 1 (.lazyMany (attributeExpression 2 3) ++ .many space ++
    .maybe (.word ['/']) ++ .many space) ++ .word ['>']

def mergeMultilineHtmlTags : List Token -> List Token
  | [] => []
  | [token] => [token]
  | token :: next :: rest =>
      match token.text?, next.text? with
      | some text, some more =>
          if (cHtmlTokenStart.fullMatch text).isSome && (cHtmlTokenEnd.fullMatch more).isSome then
            .rawText (text ++ ' ' :: more) :: mergeMultilineHtmlTags rest
          else token :: mergeMultilineHtmlTags (next :: rest)
      | _, _ => token :: mergeMultilineHtmlTags (next :: rest)

theorem htmlBlockLoop_length (contentsOf : Token -> List Token) (closes : Text -> Bool)
    (isFirst : Bool) (tokens : List Token) :
    (htmlBlockLoop contentsOf closes isFirst tokens).2.1.length ≤ tokens.length := by
  induction tokens generalizing isFirst with
  | nil => exact Nat.le_refl _
  | cons token rest inductionHypothesis =>
      rw [htmlBlockLoop]
      split
      · exact Nat.le_refl _
      · exact Nat.le_succ_of_le (inductionHypothesis false)

theorem parseInlineHtml_length {tokens rest : List Token} {block : Token}
    (parsed : parseInlineHtml tokens = some (block, rest)) : rest.length ≤ tokens.length := by
  cases tokens with
  | nil => cases parsed
  | cons token later =>
      rw [parseInlineHtml] at parsed
      split at parsed
      · cases parsed
      · dsimp only at parsed
        split at parsed
        · split at parsed
          · cases parsed
            exact htmlBlockLoop_length _ _ _ _
          · cases parsed
        · split at parsed
          · cases parsed
            exact htmlBlockLoop_length _ _ _ _
          · cases parsed

theorem parseReference_length {idTable ids : LinkIds} {tokens rest : List Token}
    (parsed : parseReference idTable tokens = some (ids, rest)) : rest.length ≤ tokens.length := by
  cases tokens with
  | nil => cases parsed
  | cons token later =>
      rw [parseReference] at parsed
      split at parsed
      · cases parsed
      · dsimp only at parsed
        split at parsed
        · cases parsed
          exact Nat.le_refl _
        · split at parsed
          · cases parsed
            exact Nat.le_refl _
          · split at parsed
            · cases parsed
              exact Nat.le_refl _
            · split at parsed
              · cases parsed
                exact Nat.le_refl _
              · cases parsed
                exact Nat.le_succ _

/-- `_processInlineHtmlAndReferences`.  `back` is the token that was stored last. -/
def processInlineHtmlAndReferences (back : Option Token) (idTable : LinkIds) :
    List Token -> List Token × LinkIds
  | [] => ([], idTable)
  | token :: rest =>
      if token.text?.isSome then
        match _ : (if back.all Token.isBlankLine then parseInlineHtml (token :: rest)
            else none) with
        | some (block, last) =>
            let later := processInlineHtmlAndReferences (some block) idTable last.tail
            (block :: later.1, later.2)
        | none =>
            match _ : parseReference idTable (token :: rest) with
            | some (ids, last) => processInlineHtmlAndReferences back ids last.tail
            | none =>
                let later := processInlineHtmlAndReferences (some token) idTable rest
                (token :: later.1, later.2)
      else
        let later := processInlineHtmlAndReferences (some token) idTable rest
        (token :: later.1, later.2)
termination_by tokens => tokens.length
decreasing_by
  · rename_i found
    have shorter : last.length ≤ (token :: rest).length := by
      split at found
      · exact parseInlineHtml_length found
      · cases found
    simp only [List.length_tail, List.length_cons] at shorter ⊢
    omega
  · rename_i found
    have shorter := parseReference_length found
    simp only [List.length_tail, List.length_cons] at shorter ⊢
    omega
  · exact Nat.lt_succ_self _
  · exact Nat.lt_succ_self _

end Markdown
end Webserver
