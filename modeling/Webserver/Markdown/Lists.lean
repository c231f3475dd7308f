import Webserver.Markdown.Lines

namespace Webserver
namespace Markdown

/-!
# Lists

`parseListBlock` collects the lines of one list.  Its loop looks at one line, and
behind a blank line at the line that follows; a line that starts a list further in
is parsed by a recursive call.  Both functions count their rounds down from a
limit, and a list that is cut off by the limit is `unfinished`.
-/

/-- `^( *)([*+-]) +([^*-].*)$` -/
def cUnorderedListExpression : Regex :=
  .lineStart ++ .group 1 (.many space) ++ .group 2 (.one (.oneOf ['*', '+', '-'])) ++ .some_ space ++
    .group 3 (.one (.noneOf ['*', '-']) ++ .many anything) ++ .lineEnd

/-- `^( *)([0-9]+)\. +(.*)$` -/
def cOrderedListExpression : Regex :=
  .lineStart ++ .group 1 (.many space) ++ .group 2 (.some_ (.one digits)) ++ .word ['.'] ++
    .some_ space ++ .group 3 (.many anything) ++ .lineEnd

inductive ListType where
  | unordered
  | ordered
deriving DecidableEq

/-- What the first line of a list says about the lines that follow. -/
structure ListShape where
  type : ListType
  indent : Nat
  nextItemExpression : Regex

/-- `^`, spaces for the indent, the bullet and ` +([^*-].*)$` -/
def nextBullet (indent : Nat) (startChar : Char) : Regex :=
  .lineStart ++ .times indent space ++ .word [startChar] ++ .some_ space ++
    .group 1 (.one (.noneOf ['*', '-']) ++ .many anything) ++ .lineEnd

/-- `^`, spaces for the indent and `[0-9]+\. +(.*)$` -/
def nextNumber (indent : Nat) : Regex :=
  .lineStart ++ .times indent space ++ .some_ (.one digits) ++ .word ['.'] ++ .some_ space ++
    .group 1 (.many anything) ++ .lineEnd

/-- `^`, spaces for the indent and ` +(([*+-])|([0-9]+\.)) +.*$` -/
def startSublistExpression (indent : Nat) : Regex :=
  .lineStart ++ .times indent space ++ .some_ space ++
    .group 1 (.alt (.group 2 (.one (.oneOf ['*', '+', '-'])))
      (.group 3 (.some_ (.one digits) ++ .word ['.']))) ++
    .some_ space ++ .many anything ++ .lineEnd

/-- `^ *([^ ].*)$` -/
def cContinuedItemExpression : Regex :=
  .lineStart ++ .many space ++ .group 1 (.one (.noneOf [' ']) ++ .many anything) ++ .lineEnd

/-- `^ {n}([^ ].*)$`, with four spaces more than the list is indented. -/
def continuedAfterBlankLineExpression (indent : Nat) : Regex :=
  .lineStart ++ .times (indent + 4) space ++
    .group 1 (.one (.noneOf [' ']) ++ .many anything) ++ .lineEnd

/-- `^ {n}(.*)$`, with eight spaces more than the list is indented. -/
def codeBlockAfterBlankLineExpression (indent : Nat) : Regex :=
  .lineStart ++ .times (indent + 8) space ++ .group 1 (.many anything) ++ .lineEnd

/-- The list that a line starts, and the text of its first item. -/
def listStart (sub : Bool) (line : Text) : Option (ListShape × Text) :=
  match cUnorderedListExpression.fullMatch line with
  | some m =>
      let indent := (m.group 1).length
      if sub || indent < 4 then
        some (⟨.unordered, indent, nextBullet indent ((m.group 2).headD ' ')⟩, m.group 3)
      else none
  | none =>
      match cOrderedListExpression.fullMatch line with
      | some m =>
          let indent := (m.group 1).length
          if sub || indent < 4 then some (⟨.ordered, indent, nextNumber indent⟩, m.group 3) else none
      | none => none

structure ListState where
  subTokens : List Token
  subItemTokens : List Token
  itemCount : Nat
  setParagraphMode : Bool

namespace ListState

def push (state : ListState) (tokens : List Token) : ListState :=
  { state with subItemTokens := state.subItemTokens ++ tokens }

/-- The collected lines become an item. -/
def endItem (state : ListState) : ListState :=
  if state.subItemTokens = [] then state
  else { state with
    subTokens := state.subTokens ++ [.container (.listItem true) state.subItemTokens]
    subItemTokens := [] }

/-- Another item begins. -/
def nextItem (state : ListState) (content : Text) : ListState :=
  { state.endItem.push [.rawText content] with itemCount := state.itemCount + 1 }

def countItem (state : ListState) : ListState := { state with itemCount := state.itemCount + 1 }

def paragraphMode (state : ListState) : ListState := { state with setParagraphMode := true }

end ListState

/-- The loop of `parseListBlock` over the lines of a code block inside an item. -/
def listCodeLoop (expression : Regex) (codeBlock : Text) :
    List Token -> Except Fault (Text × List Token)
  | [] => .ok (codeBlock, [])
  | token :: rest =>
      if token.isBlankLine then
        match rest with
        -- The iterator behind the blank line is dereferenced without a look at the end.
        | [] => .error .undefinedBehavior
        | next :: later =>
            match next.text? with
            | none => .error .undefinedBehavior
            | some nextLine =>
                match expression.fullMatch nextLine with
                | some m => listCodeLoop expression (codeBlock ++ '\n' :: m.group 1 ++ ['\n']) later
                | none => .ok (codeBlock, token :: rest)
      else
        match token.text? with
        | none => .ok (codeBlock, token :: rest)
        | some line =>
            match expression.fullMatch line with
            | some m => listCodeLoop expression (codeBlock ++ m.group 1 ++ ['\n']) rest
            | none => .ok (codeBlock, token :: rest)

/-- `UnorderedList` and `OrderedList`: in paragraph mode the items no longer inhibit
paragraphs. -/
def listToken (type : ListType) (subTokens : List Token) (paragraphMode : Bool) : Token :=
  .container (match type with
    | .unordered => .unorderedList
    | .ordered => .orderedList)
    (if paragraphMode then
      subTokens.map (fun token =>
        match token with
        | .container (.listItem _) contents => .container (.listItem false) contents
        | other => other)
    else subTokens)

mutual

/-- A list, and the tokens from the first on that do not belong to it. -/
def parseListBlock : Nat -> Bool -> List Token -> Except Fault (Option (Token × List Token))
  | 0, _, _ => .error .unfinished
  | _ + 1, _, [] => .ok none
  | rounds + 1, sub, token :: rest =>
      if token.isBlankLine || !token.canContainMarkup then .ok none
      else
        match token.text?.bind (listStart sub) with
        | none => .ok none
        | some (shape, content) => do
            let (state, last) <- listLoop rounds shape ⟨[], [.rawText content], 1, false⟩ rest
            let state := state.endItem
            if 1 < state.itemCount || shape.indent ≠ 0 then
              .ok (some (listToken shape.type state.subTokens state.setParagraphMode, last))
            else
              -- It looked like a list, but turned out to be a false alarm.
              .ok none

def listLoop : Nat -> ListShape -> ListState -> List Token -> Except Fault (ListState × List Token)
  | 0, _, _, _ => .error .unfinished
  | _ + 1, _, state, [] => .ok (state, [])
  | rounds + 1, shape, state, token :: rest =>
      if token.isBlankLine then
        match rest with
        | [] => .ok (state.endItem, [])
        | next :: later =>
            match next.text? with
            | none => .ok (state, token :: rest)
            | some line =>
                if ((startSublistExpression shape.indent).fullMatch line).isSome then do
                  match <- parseListBlock rounds true rest with
                  | none => .error .assertionFailed
                  | some (sublist, last) =>
                      listLoop rounds shape (state.paragraphMode.countItem.push [sublist]) last
                else
                  match shape.nextItemExpression.fullMatch line with
                  | some m => listLoop rounds shape (state.paragraphMode.nextItem (m.group 1)) later
                  | none =>
                      match (continuedAfterBlankLineExpression shape.indent).fullMatch line with
                      | some m =>
                          listLoop rounds shape
                            (state.push [.text .blankLine [], .rawText (m.group 1)]) later
                      | none =>
                          let expression := codeBlockAfterBlankLineExpression shape.indent
                          match expression.fullMatch line with
                          | some m => do
                              let (codeBlock, last) <-
                                listCodeLoop expression (m.group 1 ++ ['\n']) later
                              listLoop rounds shape (state.paragraphMode.countItem.push
                                [.text .blankLine [], .text .codeBlock codeBlock]) last
                          | none => .ok (state.endItem, token :: rest)
      else
        match token.text? with
        | none => .ok (state.endItem, token :: rest)
        | some line =>
            if ((startSublistExpression shape.indent).fullMatch line).isSome then do
              match <- parseListBlock rounds true (token :: rest) with
              | none => .error .assertionFailed
              | some (sublist, last) => listLoop rounds shape (state.countItem.push [sublist]) last
            else
              match shape.nextItemExpression.fullMatch line with
              | some m => listLoop rounds shape (state.nextItem (m.group 1)) rest
              | none =>
                  if (cUnorderedListExpression.fullMatch line).isSome ||
                      (cOrderedListExpression.fullMatch line).isSome then
                    -- It belongs to the parent list.
                    .ok (state.endItem, token :: rest)
                  else
                    match cContinuedItemExpression.fullMatch line with
                    | none => .error .assertionFailed
                    | some m => listLoop rounds shape (state.push [.rawText (m.group 1)]) rest

end

end Markdown
end Webserver
