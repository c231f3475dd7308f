import Webserver.Markdown.Blocks
import Webserver.Markdown.Spans

namespace Webserver
namespace Markdown

/-!
# `Document`

A document is read, processed in five passes and written.  The limit on the rounds is
that of the loops which are not bounded by what they read.
-/

/-- The token for the result of `RawText::processSpanElements`. -/
def joinTokens : List Token -> List Token
  | [] => []
  | [token] => [token]
  | tokens => [.container .container tokens]

mutual

/-- `processSpanElements` of one token: what takes its place in its container. -/
def processSpanElements (rounds : Nat) (idTable : LinkIds) : Token -> Except Fault (List Token)
  | .text (.rawText true) text => do
      let tokens <- processSpans rounds idTable text
      .ok (joinTokens tokens)
  | .text kind text => .ok [.text kind text]
  | .container kind subTokens => do
      let subTokens <- processEachSpanElements rounds idTable subTokens
      .ok [.container kind subTokens]
  | .escapedCharacter c => .ok [.escapedCharacter c]
  | .boldOrItalicMarker marker => .ok [.boldOrItalicMarker marker]
  | .image altText url title => .ok [.image altText url title]

def processEachSpanElements (rounds : Nat) (idTable : LinkIds) :
    List Token -> Except Fault (List Token)
  | [] => .ok []
  | token :: rest => do
      let first <- processSpanElements rounds idTable token
      let later <- processEachSpanElements rounds idTable rest
      .ok (first ++ later)

end

/-- `_process`, on the tokens of the document's container. -/
def process (rounds : Nat) (tokens : List Token) : Except Fault (List Token) := do
  let (tokens, idTable) :=
    processInlineHtmlAndReferences none ⟨[]⟩ (mergeMultilineHtmlTags tokens)
  let tokens <- processBlocksItems rounds tokens
  let tokens := joinParagraphLines false [] (processEachParagraphLines tokens)
  processEachSpanElements rounds idTable tokens

/-- `read` and `write`, as `MarkdownRequestHandler::convert_` calls them. -/
def convert (rounds : Nat) (src : Text) : Except Fault Text := do
  let tokens <- process rounds (read src)
  .ok (Token.writeAllAsHtml tokens)

end Markdown
end Webserver
