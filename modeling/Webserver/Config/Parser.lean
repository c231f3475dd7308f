import Webserver.Config.Syntax
import Webserver.Config.Tokenizer

namespace Webserver
namespace Config

/-!
# `NginxConfigParser::Parse`

`ParseToken` looks at nothing but the stream, so the loop of `Parse` is written
over the sequence of tokens that it returns.  The loop keeps the type of the
last token and the stack of open blocks.  A block is the list of its statements,
newest first; the block below it on the stack is the one that contains it.

A block and the statement it belongs to are connected through a pointer in the
source.  Here the block's statements are put into that statement when the block
is closed, or when the result is read off.  Popping the block at the bottom of
the stack leaves the stack empty and the statements with the caller.  `top()` and
`pop()` on an empty stack and `back()` on an empty vector are steps without
meaning.
-/

/-- The statements of an open block, newest first. -/
abbrev Frame := List NginxConfigStatement

structure ParserState where
  lastTokenType : TokenType
  /-- `config_stack`, with its top first. -/
  stack : List Frame
  /-- The statements of the whole config once it has been popped. -/
  popped : Frame

/-- Put the statements of a block into the statement that opened it. -/
def closeFrame (child : Frame) : Frame -> Frame
  | [] => []
  | statement :: others =>
      ⟨statement.tokens, some (NginxConfig.ofStatements child.reverse)⟩ :: others

/-- Close all blocks of a stack. -/
def collapse : Frame -> List Frame -> Frame
  | child, [] => child
  | child, parent :: rest => collapse (closeFrame child parent) rest

namespace ParserState

/-- The state before the first token. -/
def initial (config : NginxConfig) : ParserState := ⟨.start, [config.statements.reverse], []⟩

/-- What the caller's config holds. -/
def config (state : ParserState) : NginxConfig :=
  match state.stack with
  | [] => NginxConfig.ofStatements state.popped.reverse
  | top :: rest => NginxConfig.ofStatements (collapse top rest).reverse

/-- `config_stack.top()->statements_.emplace_back(new NginxConfigStatement)`. -/
def newStatement (state : ParserState) : Option ParserState :=
  match state.stack with
  | [] => none
  | top :: rest => some { state with stack := (⟨[], none⟩ :: top) :: rest }

/-- `config_stack.top()->statements_.back().get()->tokens_.push_back(token)`. -/
def pushToken (token : Text) (state : ParserState) : Option ParserState :=
  match state.stack with
  | (⟨tokens, child⟩ :: others) :: rest =>
      some { state with stack := (⟨tokens ++ [token], child⟩ :: others) :: rest }
  | _ => none

/-- A new block for the last statement of the top block, pushed on the stack. -/
def openBlock (state : ParserState) : Option ParserState :=
  match state.stack with
  | (⟨tokens, _⟩ :: others) :: rest =>
      some { state with stack := [] :: (⟨tokens, some .empty⟩ :: others) :: rest }
  | _ => none

/-- `config_stack.pop()`. -/
def popBlock (state : ParserState) : Option ParserState :=
  match state.stack with
  | [] => none
  | [root] => some { state with stack := [], popped := root }
  | child :: parent :: rest => some { state with stack := closeFrame child parent :: rest }

end ParserState

/-- The transitions that `Parse` allows from the last token to the next. -/
def mayFollow (last next : TokenType) : Bool :=
  match next with
  | .normal => last == .start || last == .statementEnd || last == .startBlock ||
      last == .endBlock || last == .normal
  | .statementEnd => last == .normal
  | .startBlock => last == .normal
  | .endBlock => last == .statementEnd || last == .startBlock || last == .endBlock
  | .eof => last == .statementEnd || last == .endBlock
  | _ => false

/-- How one round of the loop ends. -/
inductive Round where
  | goOn (state : ParserState)
  | finished (verdict : Bool)
  | undefined

/-- Go on with a new last token, if the operation has a meaning. -/
def Round.after (type : TokenType) : Option ParserState -> Round
  | none => undefined
  | some state => goOn { state with lastTokenType := type }

/-- One round of the loop. -/
def ParserState.step (state : ParserState) (token : Token) : Round :=
  if token.type = .comment then .goOn state
  else if mayFollow state.lastTokenType token.type = false then .finished false
  else
    match token.type with
    | .normal => .after .normal (
        if state.lastTokenType = .normal then state.pushToken token.value
        else state.newStatement.bind (ParserState.pushToken token.value))
    | .statementEnd => .after .statementEnd (some state)
    | .startBlock => .after .startBlock state.openBlock
    | .endBlock => .after .endBlock state.popBlock
    | .eof => .finished true
    | _ => .finished false

/-- The loop over a sequence of tokens, with the verdict and the config that it
leaves behind.  The sequence of a text ends with a token on which the loop
ends. -/
def parseTokens : List Token -> ParserState -> Except Fault (Bool × NginxConfig)
  | [], state => .ok (false, state.config)
  | token :: rest, state =>
      match state.step token with
      | .goOn next => parseTokens rest next
      | .finished verdict => .ok (verdict, state.config)
      | .undefined => .error .undefinedBehavior

/-- `Parse` on a stream with the given characters and a given config. -/
def parseInto (config : NginxConfig) (text : Text) : Except Fault (Bool × NginxConfig) :=
  parseTokens (tokens text) (ParserState.initial config)

/-- `Parse` with an empty config. -/
def parse (text : Text) : Except Fault (Bool × NginxConfig) := parseInto .empty text

example : parse "foo bar; baz \x7b qux; \x7d".toList =
    .ok (true, .simple ["foo".toList, "bar".toList]
      (.block ["baz".toList] (.simple ["qux".toList] .empty) .empty)) := by decide

end Config
end Webserver
