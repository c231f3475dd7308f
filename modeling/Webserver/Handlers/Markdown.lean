import Webserver.Handlers.Crud

namespace Webserver
namespace Handlers

open Http Programs Storage

/-!
# `MarkdownRequestHandler`

File names and texts are cut out of the target or the body by first-occurrence
searches, and several operations rewrite the request and hand it to another
operation.

The conversion from Markdown to HTML is the parameter `convert`, which says how
it ends for each text; `Markdown.convert` is one.  It can end without a page, and
then the operation ends in the same way.
-/

namespace HtmlAssets

def editForm : Text :=
  ("<form action=\"/markdown/save\" method=\"POST\" accept-charset=\"utf-8\" enctype=\"text/plain\">\n" ++
   "  Markdown:<br>\n" ++
   "  <input type=\"hidden\" name=\"postid\" value=\"editsPID\">\n" ++
   "  <textarea name=\"text\">sffs</textarea><br>\n" ++
   "  <input type=\"submit\" id=\"submit-button\" value=\"Save\">\n" ++
   "</form>\n" ++
   "<form action= \"/markdown/delete\"  method=\"POST\">\n" ++
   "  <input type=\"hidden\" name=\"postid\" value=\"editsPID\">\n" ++
   "  <input type=\"submit\" value=\"Delete\">\n" ++
   "</form>").toList

def listTableStart : Text := "<table><tbody>".toList

def listRowStart : Text := "<tr><td>".toList

def listRowMid : Text := "</td><td>".toList

def listRowEnd : Text := "</td></tr>".toList

def listLineFormA : Text :=
  ("<form action=\"/markdown/view\" method=\"GET\" accept-charset=\"utf-8\" enctype=\"text/plain\">" ++
   "<input type=\"hidden\" name=\"postid\" value=\"").toList

def listLineFormB : Text :=
  ("\"><input type=\"submit\" value=\"View\">" ++ "</form>").toList

def listTableEnd : Text :=
  ("<tr><td><form action=\"/markdown/create\" method=\"GET\">" ++
   "<input type=\"submit\" value=\"New post\"></form></td></tr></tbody></table>").toList

def editButton : Text :=
  ("<form action=\"/markdown/edit\" method=\"POST\" accept-charset=\"utf-8\" enctype=\"text/plain\">" ++
   "<input type=\"hidden\" name=\"postid\" value=\"sffs\"><input type=\"submit\" value=\"Edit\">" ++
   "</form>").toList

def listButton : Text :=
  "<form action=\"/markdown/list\" method=\"GET\"><input type=\"submit\" value=\"List posts\"></form>".toList

end HtmlAssets

structure MarkdownRequestHandler where
  location : Text
  dataPath : Text
deriving DecidableEq

/-- `text.replace(text.find(hole), hole.size(), filling)`; `replace` throws when
the search has failed. -/
def fillHole (hole filling text : Text) : Except Fault Text :=
  match Strings.find hole text with
  | none => .error .outOfRange
  | some pos => .ok (text.take pos ++ filling ++ text.drop (pos + hole.length))

namespace MarkdownRequestHandler

/-- The text before the first occurrence of a character, if there is one. -/
def cutBefore (c : Char) (text : Text) : Text :=
  match Strings.find [c] text with
  | some position => text.take position
  | none => text

def extractFileName (str : Text) : Text :=
  match Strings.find "postid=".toList str with
  | none => []
  | some postidPos => cutBefore '\r' (cutBefore '\n' (str.drop (postidPos + 7)))

theorem cutBefore_of_notMem {c : Char} {text : Text} (absent : c ∉ text) :
    cutBefore c text = text := by
  rw [cutBefore, (Strings.find_singleton_eq_none_iff c text).mpr absent]

theorem cutBefore_append {c : Char} {before : Text} (avoids : c ∉ before) (after : Text) :
    cutBefore c (before ++ c :: after) = before := by
  rw [cutBefore, Strings.find_singleton_append avoids]
  exact List.take_left

theorem notMem_cutBefore (c : Char) (text : Text) : c ∉ cutBefore c text := by
  unfold cutBefore
  cases found : Strings.find [c] text with
  | none => exact (Strings.find_singleton_eq_none_iff c text).mp found
  | some position => exact Strings.notMem_take_of_find found

theorem cutBefore_subset (c : Char) (text : Text) : cutBefore c text ⊆ text := by
  unfold cutBefore
  cases Strings.find [c] text with
  | none => exact List.Subset.refl _
  | some position => exact List.take_subset position text

/-- Text added at the end is either cut away or stays at the end. -/
theorem cutBefore_concat {c last : Char} (different : c ≠ last) (text : Text) :
    cutBefore c (text ++ [last]) = cutBefore c text ∨
      cutBefore c (text ++ [last]) = cutBefore c text ++ [last] := by
  unfold cutBefore
  cases found : Strings.find [c] text with
  | some position =>
      have bound := ((Strings.find_eq_some_iff _ _ _).mp found).1
      left
      simp only [Strings.find_append_of_some found, List.take_append_of_le_length bound]
  | none =>
      have absent := (Strings.find_singleton_eq_none_iff c text).mp found
      right
      rw [(Strings.find_singleton_eq_none_iff c _).mpr (by simp [absent, different])]

/-- The text behind the first `postid=`, when it holds no line end. -/
theorem extractFileName_of_find (before : Text) {name : Text}
    (found : Strings.find "postid=".toList (before ++ "postid=".toList) = some before.length)
    (oneLine : '\n' ∉ name ∧ '\r' ∉ name) :
    extractFileName (before ++ "postid=".toList ++ name) = name := by
  have rest : (before ++ "postid=".toList ++ name).drop (before.length + 7) = name := by
    have size : (before ++ "postid=".toList).length = before.length + 7 := by
      rw [List.length_append]
      rfl
    rw [← size, List.drop_left]
  rw [extractFileName, Strings.find_append_of_some found]
  simp only [rest, cutBefore_of_notMem oneLine.1, cutBefore_of_notMem oneLine.2]

/-- The request that `create` hands to `edit` names the number it has chosen. -/
theorem extractFileName_digits (n : Nat) :
    extractFileName ("postid=".toList ++ Nat.toDigits 10 n) = Nat.toDigits 10 n := by
  refine extractFileName_of_find [] (by decide) ⟨?_, ?_⟩
  all_goals
    intro member
    have digit := CInt.isDigit_of_mem_toDigits member
    revert digit
    decide

/-- The request that `save` hands to `view` names the file just written. -/
theorem extractFileName_viewed {name : Text} (oneLine : '\n' ∉ name ∧ '\r' ∉ name) :
    extractFileName ("/markdown/view?postid=".toList ++ name) = name :=
  extractFileName_of_find "/markdown/view?".toList (by decide) oneLine

/-- An extracted name is one line. -/
theorem extractFileName_oneLine (str : Text) :
    '\n' ∉ extractFileName str ∧ '\r' ∉ extractFileName str := by
  unfold extractFileName
  cases Strings.find "postid=".toList str with
  | none => simp
  | some postidPos =>
      refine ⟨?_, notMem_cutBefore '\r' _⟩
      exact fun member => notMem_cutBefore '\n' _ (cutBefore_subset '\r' _ member)

/-- A slash behind the text does not complete a `postid=`. -/
theorem extractFileName_concat_slash_of_none {str : Text}
    (found : Strings.find "postid=".toList str = none) : extractFileName (str ++ ['/']) = [] := by
  have parts : "postid=".toList = "postid".toList ++ ['='] := rfl
  have foundLater : Strings.find "postid=".toList (str ++ ['/']) = none := by
    rw [parts] at found ⊢
    rw [Strings.find_append_of_notMem (by decide), found]
  rw [extractFileName, foundLater]

/-- A slash behind the text shows at the end of the extracted name, unless a
line end comes before it. -/
theorem extractFileName_concat_slash (str : Text) :
    extractFileName (str ++ ['/']) = extractFileName str ∨
      extractFileName (str ++ ['/']) = extractFileName str ++ ['/'] := by
  cases found : Strings.find "postid=".toList str with
  | none =>
      left
      rw [extractFileName_concat_slash_of_none found, extractFileName, found]
  | some postidPos =>
      have fits : postidPos + 7 ≤ str.length := by
        have size := ((Strings.find_eq_some_iff _ _ _).mp found).2.1.length_le
        have seven : "postid=".toList.length = 7 := rfl
        rw [List.length_drop, seven] at size
        omega
      simp only [extractFileName, found, Strings.find_append_of_some found ['/'],
        List.drop_append_of_le_length fits]
      rcases cutBefore_concat (show '\n' ≠ '/' by decide) (str.drop (postidPos + 7)) with same | same
      · exact Or.inl (by rw [same])
      · rw [same]
        exact cutBefore_concat (show '\r' ≠ '/' by decide) _

/-- The trimming loop of `extract_text`, on the reversed string.  Its test
reads the last character of a string that may have become empty. -/
def trimLineEnds : Text -> Except Fault Text
  | [] => .error .undefinedBehavior
  | last :: front => if last = '\n' ∨ last = '\r' then trimLineEnds front else .ok (last :: front)

def extractText (str : Text) : Except Fault Text :=
  match Strings.find "text=".toList str with
  | none => .ok []
  | some textPos => (trimLineEnds (str.drop (textPos + 5)).reverse).map List.reverse

def constructFilePath (handler : MarkdownRequestHandler) (filename : Text) : Except Fault Text :=
  joinPath handler.dataPath filename

def mapRequestPathToFilePath (handler : MarkdownRequestHandler) (requestUri : Text) :
    Except Fault Text :=
  handler.constructFilePath (extractFileName requestUri)

def edit (handler : MarkdownRequestHandler) (req : Request) (res : Response) :
    Handling Response := do
  let fileName := extractFileName req.body
  let filePath <- Program.ofExcept (handler.constructFilePath fileName)
  let content <- readFile filePath
  let res := { res with version := 11 }
  if content.1 = true then
    let res := { res with result := .ok, contentType := some "text/html".toList }
    let body <- Program.ofExcept (do
      let body <- fillHole "sffs".toList content.2 HtmlAssets.editForm
      let body <- fillHole "editsPID".toList fileName body
      fillHole "editsPID".toList fileName body)
    pure ({ res with body := body } : Response).preparePayload
  else
    pure ({ res with result := .notFound } : Response).preparePayload

def create (handler : MarkdownRequestHandler) (junk : Nat -> CInt) (req : Request)
    (res : Response) : Handling Response := do
  let absPath <- Program.ofExcept (handler.mapRequestPathToFilePath req.target)
  let listing <- listFiles absPath
  let postid <- Program.ofExcept (chooseId junk listing.2)
  let written <- writeFile (absPath ++ postid.toText) []
  if written = false then
    pure { res with result := .internalServerError }
  else
    handler.edit { req with
      target := "/markdown/edit".toList
      body := "postid=".toList ++ postid.toText } res

/-- `MarkdownRequestHandler::convert`. -/
def convert_ (convert : Text -> Except Fault Text) (req : Request) (res : Response) :
    Handling Response := do
  let page <- Program.ofExcept (convert req.body)
  pure ({ res with
    result := .ok
    version := 11
    contentType := some "text/html".toList
    body := page } : Response).preparePayload

def view (handler : MarkdownRequestHandler) (convert : Text -> Except Fault Text) (req : Request)
    (res : Response) : Handling Response := do
  let res := { res with version := 11 }
  let postId := extractFileName req.target
  if postId = [] then
    pure ({ res with result := .notFound } : Response).preparePayload
  else
    let filePath <- Program.ofExcept (handler.constructFilePath postId)
    let content <- readFile filePath
    if content.1 = true then
      let filledButton <- Program.ofExcept (fillHole "sffs".toList postId HtmlAssets.editButton)
      let page <- Program.ofExcept (convert content.2)
      pure ({ res with
        result := .ok
        version := 11
        contentType := some "text/html".toList
        body := page ++ "<br>".toList ++ filledButton ++
          HtmlAssets.listButton } : Response).preparePayload
    else
      pure ({ res with result := .notFound } : Response).preparePayload

/-- One row of the list page. -/
def listRow (postid : Text) : Text :=
  HtmlAssets.listRowStart ++ postid ++ " ".toList ++ HtmlAssets.listRowMid ++
    (HtmlAssets.listLineFormA ++ postid ++ HtmlAssets.listLineFormB) ++ HtmlAssets.listRowEnd

/-- The character loop of `list`: the response so far and the id being read. -/
def listStep (state : Text × Text) (c : Char) : Text × Text :=
  if c ≠ ',' then (state.1, state.2 ++ [c]) else (state.1 ++ listRow state.2, [])

def list (handler : MarkdownRequestHandler) (req : Request) (res : Response) :
    Handling Response := do
  let filePath <- Program.ofExcept (handler.mapRequestPathToFilePath (req.target ++ "/".toList))
  let listing <- listFiles filePath
  let body :=
    if listing.1 = true ∧ listing.2 ≠ [] then
      let (rows, postid) := listing.2.foldl listStep (HtmlAssets.listTableStart, [])
      let rows := if listing.2.getLast? ≠ some ',' then rows ++ listRow postid else rows
      rows ++ HtmlAssets.listTableEnd
    else "Nothing to see here".toList
  pure ({ res with
    version := 11
    body := body
    contentType := some "text/html".toList
    result := .ok } : Response).preparePayload

def save (handler : MarkdownRequestHandler) (convert : Text -> Except Fault Text) (req : Request)
    (res : Response) : Handling Response := do
  let res := { res with version := 11 }
  let fileName := extractFileName req.body
  if fileName = [] then
    pure ({ res with result := .notFound } : Response).preparePayload
  else
    let filePath <- Program.ofExcept (handler.constructFilePath fileName)
    let fileContent <- Program.ofExcept (extractText req.body)
    let written <- writeFile filePath fileContent
    if written = false then
      pure ({ res with result := .internalServerError } : Response).preparePayload
    else
      handler.view convert
        { req with target := "/markdown/view?postid=".toList ++ fileName } res

def mdDelete (handler : MarkdownRequestHandler) (req : Request) (res : Response) :
    Handling Response := do
  let fileName := extractFileName req.body
  let filePath <- Program.ofExcept (handler.constructFilePath fileName)
  let deleted <- deleteFile filePath
  let res : Response :=
    if deleted = true then
      { res with result := .ok, contentType := some "application/html".toList, body := [] }
    else { res with result := .notFound }
  -- The list page written next replaces the status set here.
  handler.list { req with target := "markdown/list".toList } res.preparePayload

/-- The action named by the target. -/
def action (target : Text) : Except Fault Text :=
  let start := Strings.afterFind (Strings.find "/markdown/".toList target) 10
  match Strings.find ['?'] target with
  | none => (Strings.substr target start).elim (.error .outOfRange) .ok
  | some queryPos =>
      -- `query_pos - 10` wraps around to a count that takes everything.
      let count := if queryPos < 10 then target.length else queryPos - 10
      (Strings.substrN target start count).elim (.error .outOfRange) .ok

def serve (handler : MarkdownRequestHandler) (convert : Text -> Except Fault Text) (junk : Nat -> CInt)
    (req : Request) (res : Response) : Handling Response := do
  let method := req.method.methodString
  let action <- Program.ofExcept (action req.target)
  if method = "GET".toList then
    if action = "list".toList then handler.list req res
    else if action = "view".toList then handler.view convert req res
    else if action = "convert".toList then convert_ convert req res
    else if action = "create".toList then handler.create junk req res
    else pure { res with result := .notImplemented }
  else if method = "POST".toList then
    if action = "edit".toList then handler.edit req res
    else if action = "save".toList then handler.save convert req res
    else if action = "delete".toList then handler.mdDelete req res
    else pure { res with result := .notImplemented }
  else
    pure { res with result := .notImplemented }

end MarkdownRequestHandler
end Handlers
end Webserver
