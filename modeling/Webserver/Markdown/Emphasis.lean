import Webserver.Markdown.Tokens

namespace Webserver
namespace Markdown

/-!
# Emphasis

A text is cut at its runs of asterisks and underscores into markers that open and
markers that close emphasis.  Every opening marker is then matched with a closing
one further on; a marker of three is split where that helps.  A last pass takes
back the matches that are not properly nested.

The search for a closing marker puts new markers behind the one that it splits and
goes on with them, so it is a loop with a limit on its rounds.
-/

def emphasisCharacter : CharSet := .oneOf ['*', '_']

/-- `(?<!c)c{1,3}(?!c)` with the set of characters that may not come before. -/
def markerRun (notBefore : List Char) (c : Char) : Regex :=
  .notBehind (.oneOf notBefore) ++ .word [c] ++ .upTo 2 (.word [c]) ++ .notAhead (.word [c])

/-- `(?:(?<![*_])([*_]{1,3})([^*_ ]+?)\1(?![*_]))` -/
def midWordEmphasis : Regex :=
  .notBehind emphasisCharacter ++
    .group 1 (.one emphasisCharacter ++ .upTo 2 (.one emphasisCharacter)) ++
    .group 2 (.lazySome (.one (.noneOf ['*', '_', ' ']))) ++ .backReference 1 ++
    .notAhead (.one emphasisCharacter)

/-- `((?:(?<!\*)\*{1,3}(?!\*)|(?<!_)_{1,3}(?!_))(?=.)(?! )(?![.,:;] )(?![.,:;]$))` -/
def openEmphasis : Regex :=
  let punctuation : Regex := .one (.oneOf ['.', ',', ':', ';'])
  .group 3 (.alt (markerRun ['*'] '*') (markerRun ['_'] '_') ++ .ahead anything ++
    .notAhead space ++ .notAhead (punctuation ++ space) ++ .notAhead (punctuation ++ .lineEnd))

/-- `((?<![* ])\*{1,3}(?!\*)|(?<![ _])_{1,3}(?!_))` -/
def closeEmphasis : Regex :=
  .group 4 (.alt (markerRun ['*', ' '] '*') (markerRun [' ', '_'] '_'))

def cEmphasisExpression : Regex := .alt midWordEmphasis (.alt openEmphasis closeEmphasis)

def markerToken (openMarker : Bool) (run : Text) : Token :=
  .boldOrItalicMarker (.fresh openMarker (run.headD '\x00') run.length)

/-- The tokens for one match. -/
def emphasisTokens (m : Regex.Match) : List Token :=
  if m.matched 3 then [markerToken true (m.group 3)]
  else if m.matched 4 then [markerToken false (m.group 4)]
  else [markerToken true (m.group 1), .rawText (m.group 2), markerToken false (m.group 1)]

/-- The token for a text, none for the empty text. -/
def rawTokens (text : Text) : List Token := if text = [] then [] else [.rawText text]

def readMarkers (src : Text) : List Token :=
  let found := cEmphasisExpression.matches_ src
  found.1.flatMap (fun m => rawTokens m.before ++ emphasisTokens m) ++ rawTokens found.2

/-! ## Matching -/

/-- What the search for a closing marker leaves: the opening marker, the markers that
it has been split into, and the tokens behind. -/
structure CloseSearch where
  openToken : BoldOrItalicMarker
  split : List Token
  rest : List Token

/-- Step over a token. -/
def CloseSearch.after (token : Token) (found : CloseSearch) : CloseSearch :=
  { found with rest := token :: found.rest }

/-- The two markers that a marker of three is split into. -/
def splitMarker (marker : BoldOrItalicMarker) (size : Nat) : List Token :=
  [.boldOrItalicMarker (.fresh marker.openMarker marker.tokenCharacter (marker.size - size)),
    .boldOrItalicMarker (.fresh marker.openMarker marker.tokenCharacter size)]

/-- Find a matching close-marker, if it's there. -/
def findClose (id : Nat) (openToken : BoldOrItalicMarker) :
    Nat -> List Token -> Except Fault CloseSearch
  | 0, _ => .error .unfinished
  | _ + 1, [] => .ok ⟨openToken, [], []⟩
  | rounds + 1, .boldOrItalicMarker closeToken :: rest =>
      if closeToken.isUnmatchedCloseMarker then
        if closeToken.size = 3 ∧ openToken.size ≠ 3 then do
          let found <- findClose id openToken rounds (splitMarker closeToken openToken.size ++ rest)
          .ok (found.after (.boldOrItalicMarker closeToken.disable))
        else if closeToken.tokenCharacter = openToken.tokenCharacter ∧
            closeToken.size = openToken.size then
          .ok ⟨{ openToken with matched := some id }, [],
            .boldOrItalicMarker { closeToken with matched := some id } :: rest⟩
        else if openToken.size = 3 then
          .ok ⟨openToken.disable, splitMarker openToken closeToken.size,
            .boldOrItalicMarker closeToken :: rest⟩
        else do
          let found <- findClose id openToken rounds rest
          .ok (found.after (.boldOrItalicMarker closeToken))
      else do
        let found <- findClose id openToken rounds rest
        .ok (found.after (.boldOrItalicMarker closeToken))
  | rounds + 1, token :: rest => do
      let found <- findClose id openToken rounds rest
      .ok (found.after token)

/-- The loop over the opening markers. -/
def matchMarkers : Nat -> Nat -> List Token -> Except Fault (List Token)
  | 0, _, _ => .error .unfinished
  | _ + 1, _, [] => .ok []
  | rounds + 1, id, .boldOrItalicMarker openToken :: rest =>
      if openToken.isUnmatchedOpenMarker then do
        let found <- findClose id openToken rounds rest
        let later <- matchMarkers rounds (if found.openToken.matched.isSome then id + 1 else id)
          (found.split ++ found.rest)
        .ok (.boldOrItalicMarker found.openToken :: later)
      else do
        let later <- matchMarkers rounds id rest
        .ok (.boldOrItalicMarker openToken :: later)
  | rounds + 1, id, token :: rest => do
      let later <- matchMarkers rounds id rest
      .ok (token :: later)

/-! ## Nesting -/

/-- The loop that looks for invalidly nested matches.  The stack `openMatches` holds the
numbers of the opening markers; `undone` are the numbers whose match has been taken
back. -/
def findInvalid : List Nat -> List Nat -> List Token -> Except Fault (List Nat)
  | _, undone, [] => .ok undone
  | openMatches, undone, .boldOrItalicMarker marker :: rest =>
      match marker.matched with
      | none => findInvalid openMatches undone rest
      | some id =>
          if marker.openMarker then findInvalid (id :: openMatches) undone rest
          else
            match openMatches with
            -- `top()` of an empty stack.
            | [] => .error .undefinedBehavior
            | top :: below =>
                if id ≠ top ∨ top ∈ undone then findInvalid openMatches (id :: undone) rest
                else findInvalid (below.dropWhile (fun id => undone.contains id)) undone rest
  | openMatches, undone, _ :: rest => findInvalid openMatches undone rest

/-- Take back a match. -/
def unmatch (undone : List Nat) : Token -> Token
  | .boldOrItalicMarker marker =>
      if marker.matched.any undone.contains then
        .boldOrItalicMarker { marker with matched := none }
      else .boldOrItalicMarker marker
  | token => token

/-- The markers of a text, matched and properly nested. -/
def processMarkers (rounds : Nat) (tokens : List Token) : Except Fault (List Token) := do
  let tokens <- matchMarkers rounds 0 tokens
  let undone <- findInvalid [] [] tokens
  .ok (tokens.map (unmatch undone))

end Markdown
end Webserver
