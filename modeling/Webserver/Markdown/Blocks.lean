import Webserver.Markdown.InlineHtml
import Webserver.Markdown.Lists

namespace Webserver
namespace Markdown

/-!
# Blocks and paragraphs

The third pass looks for headers, rules, lists, quotes and blocks of code.  A parser
leaves the iterator at the last line that it has used or, where it stops at a line
that it does not use, at that line; the loop then steps over it either way.  The
fourth pass joins the lines that are left into paragraphs.
-/

/-! ## The parsers -/

/-- `^(#{1,6}) +(.*?) *#*$` -/
def cHashHeaders : Regex :=
  .lineStart ++ .group 1 (.word ['#'] ++ .upTo 5 (.word ['#'])) ++ .some_ space ++
    .group 2 (.lazyMany anything) ++ .many space ++ .many (.word ['#']) ++ .lineEnd

/-- `^([-=])\1*$` -/
def cUnderlinedHeaders : Regex :=
  .lineStart ++ .group 1 (.one (.oneOf ['-', '='])) ++ .many (.backReference 1) ++ .lineEnd

/-- The text of a line that a block can start with. -/
def blockText (token : Token) : Option Text :=
  if !token.isBlankLine && token.canContainMarkup then token.text? else none

def parseHeader : List Token -> Option (Token × List Token)
  | [] => none
  | token :: rest =>
      match blockText token with
      | none => none
      | some line =>
          match cHashHeaders.fullMatch line with
          | some m => some (.text (.header (m.group 1).length) (m.group 2), token :: rest)
          | none =>
              match rest with
              | [] => none
              | next :: _ =>
                  match (blockText next).bind cUnderlinedHeaders.fullMatch with
                  | none => none
                  | some m =>
                      some (.text (.header (if (m.group 1).head? = some '=' then 1 else 2)) line, rest)

/-- `^ {0,3}((?:-|\*|_) *){3,}$` -/
def cHorizontalRules : Regex :=
  let mark : Regex :=
    .group 1 (.alt (.word ['-']) (.alt (.word ['*']) (.word ['_'])) ++ .many space)
  .lineStart ++ .upTo 3 space ++ (.times 3 mark ++ .many mark) ++ .lineEnd

def parseHorizontalRule : List Token -> Option (Token × List Token)
  | [] => none
  | token :: rest =>
      match (blockText token).bind cHorizontalRules.fullMatch with
      | none => none
      | some _ => some (.text .htmlTag "hr/".toList, token :: rest)

def countQuoteLevel (prefixString : Text) : Nat := prefixString.count '>'

/-- ` {0,3}>` -/
def quoteMark : Regex := .upTo 3 space ++ .word ['>']

/-- `^((?: {0,3}>)+) (.*)$` -/
def cBlockQuoteExpression : Regex :=
  .lineStart ++ .group 1 (.some_ quoteMark) ++ space ++ .group 2 (.many anything) ++ .lineEnd

/-- `^((?: {0,3}>){n}) ?(.*)$` -/
def continuationExpression (quoteLevel : Nat) : Regex :=
  .lineStart ++ .group 1 (.times quoteLevel quoteMark) ++ .maybe space ++
    .group 2 (.many anything) ++ .lineEnd

/-- The loop of `parseBlockQuote`. -/
def quoteLoop (expression : Regex) : List Token -> Except Fault (List Token × List Token)
  | [] => .ok ([], [])
  | token :: rest =>
      if token.isBlankLine then
        match rest with
        | [] => .ok ([], [])
        | next :: later =>
            match next.text? with
            | none => .error .undefinedBehavior
            | some line =>
                match expression.fullMatch line with
                | none => .ok ([], token :: rest)
                | some m =>
                    if m.group 1 ≠ [] then do
                      let (subTokens, last) <- quoteLoop expression later
                      .ok (.text .blankLine [] :: .rawText (m.group 2) :: subTokens, last)
                    else .ok ([], token :: rest)
      else
        match token.text? with
        | none => .error .undefinedBehavior
        | some line =>
            match expression.fullMatch line with
            | none => .ok ([], token :: rest)
            | some m => do
                let (subTokens, last) <- quoteLoop expression rest
                .ok (lineToken (m.group 2) :: subTokens, last)

def parseBlockQuote : List Token -> Except Fault (Option (Token × List Token))
  | [] => .ok none
  | token :: rest =>
      match (blockText token).bind cBlockQuoteExpression.fullMatch with
      | none => .ok none
      | some m => do
          let expression := continuationExpression (countQuoteLevel (m.group 1))
          let (subTokens, last) <- quoteLoop expression rest
          .ok (some (.container .blockQuote (.rawText (m.group 2) :: subTokens), last))

/-- The text of a line of code, with the line ends for the blank lines before it. -/
def isCodeBlockLine : List Token -> Option (Text × List Token)
  | [] => none
  | token :: rest =>
      if token.isBlankLine then (isCodeBlockLine rest).map (fun line => ('\n' :: line.1, line.2))
      else
        match blockText token with
        | none => none
        | some line => if "    ".toList.isPrefixOf line then some (line.drop 4, rest) else none

theorem isCodeBlockLine_shorter {tokens rest : List Token} {line : Text}
    (found : isCodeBlockLine tokens = some (line, rest)) : rest.length < tokens.length := by
  induction tokens generalizing line with
  | nil => cases found
  | cons token later inductionHypothesis =>
      rw [isCodeBlockLine] at found
      split at found
      · rcases Option.map_eq_some_iff.mp found with ⟨⟨inner, last⟩, more, same⟩
        cases same
        exact Nat.lt_succ_of_lt (inductionHypothesis more)
      · split at found
        · cases found
        · split at found
          · cases found
            exact Nat.lt_succ_self _
          · cases found

/-- The loop of `parseCodeBlock`. -/
def codeBlockLoop (tokens : List Token) : Text × List Token :=
  match _ : isCodeBlockLine tokens with
  | none => ([], tokens)
  | some (line, rest) =>
      let later := codeBlockLoop rest
      (line ++ '\n' :: later.1, later.2)
termination_by tokens.length
decreasing_by
  rename_i found
  exact isCodeBlockLine_shorter found

def parseCodeBlock : List Token -> Option (Token × List Token)
  | [] => none
  | token :: rest =>
      if token.isBlankLine then none
      else
        match isCodeBlockLine (token :: rest) with
        | none => none
        | some (line, last) =>
            let later := codeBlockLoop last
            some (.text .codeBlock (line ++ '\n' :: later.1), later.2)

/-! ## The pass over the blocks -/

/-- The first parser that finds its block. -/
def parseBlock (rounds : Nat) (tokens : List Token) : Except Fault (Option (Token × List Token)) :=
  match parseHeader tokens with
  | some header => .ok (some header)
  | none =>
      match parseHorizontalRule tokens with
      | some rule => .ok (some rule)
      | none => do
          match <- parseListBlock rounds false tokens with
          | some list => .ok (some list)
          | none =>
              match <- parseBlockQuote tokens with
              | some quote => .ok (some quote)
              | none => .ok (parseCodeBlock tokens)

/-- `_processBlocksItems`, on the tokens of a container. -/
def processBlocksItems : Nat -> List Token -> Except Fault (List Token)
  | 0, _ => .error .unfinished
  | _ + 1, [] => .ok []
  | rounds + 1, token :: rest =>
      if token.text?.isSome then do
        match <- parseBlock rounds (token :: rest) with
        | none => do
            let later <- processBlocksItems rounds rest
            .ok (token :: later)
        | some (.container kind subTokens, last) => do
            let subTokens <- processBlocksItems rounds subTokens
            let later <- processBlocksItems rounds last.tail
            .ok (.container kind subTokens :: later)
        | some (subitem, last) => do
            let later <- processBlocksItems rounds last.tail
            .ok (subitem :: later)
      else
        match token with
        | .container kind subTokens => do
            let subTokens <- processBlocksItems rounds subTokens
            let later <- processBlocksItems rounds rest
            .ok (.container kind subTokens :: later)
        | _ => processBlocksItems rounds rest

/-! ## Paragraphs -/

/-- `^(.*)  $` -/
def cLineBreak : Regex :=
  .lineStart ++ .group 1 (.many anything) ++ .word "  ".toList ++ .lineEnd

def flushParagraph (noParagraphs : Bool) (paragraphText : Text) : List Token :=
  if paragraphText = [] then []
  else if noParagraphs then [.rawText paragraphText]
  else [.container .paragraph [.rawText paragraphText]]

/-- The text of a line that can be part of a paragraph. -/
def paragraphLine (token : Token) : Option Text :=
  if token.canContainMarkup && !token.inhibitParagraphs then token.text? else none

/-- The second loop of `_processParagraphLines`. -/
def joinParagraphLines (noParagraphs : Bool) (paragraphText : Text) : List Token -> List Token
  | [] => flushParagraph noParagraphs paragraphText
  | token :: rest =>
      match paragraphLine token with
      | none =>
          flushParagraph noParagraphs paragraphText ++
            token :: joinParagraphLines noParagraphs [] rest
      | some line =>
          let joined := if paragraphText = [] then [] else paragraphText ++ [' ']
          match cLineBreak.fullMatch line with
          | some m =>
              flushParagraph noParagraphs (joined ++ m.group 1) ++
                .text .htmlTag "br/".toList :: joinParagraphLines noParagraphs [] rest
          | none => joinParagraphLines noParagraphs (joined ++ line) rest

mutual

/-- `_processParagraphLines`; only containers have lines. -/
def processParagraphLines : Token -> Token
  | .container kind subTokens =>
      .container kind
        (joinParagraphLines kind.inhibitParagraphs [] (processEachParagraphLines subTokens))
  | .text kind text => .text kind text
  | .escapedCharacter c => .escapedCharacter c
  | .boldOrItalicMarker marker => .boldOrItalicMarker marker
  | .image altText url title => .image altText url title

def processEachParagraphLines : List Token -> List Token
  | [] => []
  | token :: rest => processParagraphLines token :: processEachParagraphLines rest

end

end Markdown
end Webserver
