import Webserver.Handlers.Markdown

namespace Webserver
namespace Handlers

open Http

/-!
# The pages of the Markdown handler

The edit page is a form with three holes, one for the text and two for the id.
They are filled one after another by first-occurrence searches, so what has been
filled in is searched as well.  `pageFront` is what the second search for the id goes
through; it stops at the second hole exactly when the word of the hole is not in
there.  `editPage_begins` says what can be read off the page in any case: the id, or a
longer word in its place, up to the first line end behind the beginning of the form.
-/

/-- A hole is filled at its first occurrence. -/
theorem fillHole_append {hole before : Text}
    (first : Strings.find hole (before ++ hole) = some before.length) (filling after : Text) :
    fillHole hole filling (before ++ (hole ++ after)) = .ok (before ++ (filling ++ after)) := by
  rw [← List.append_assoc, fillHole, Strings.find_append_of_some first]
  simp only [← List.length_append, List.drop_left]
  rw [List.append_assoc before, List.take_left, List.append_assoc]

/-- A hole that the text has is filled. -/
theorem fillHole_of_infix {hole text : Text} (occurs : hole <:+: text) (filling : Text) :
    Exists fun before : Text => Exists fun after : Text =>
      text = before ++ hole ++ after ∧
        fillHole hole filling text = .ok (before ++ (filling ++ after)) := by
  rcases Strings.exists_first_occurrence occurs with ⟨before, after, rfl, found⟩
  refine ⟨before, after, rfl, ?_⟩
  rw [List.append_assoc]
  exact fillHole_append found filling after

namespace HtmlAssets

/-- The form up to its first hole. -/
def editFormStart : Text :=
  ("<form action=\"/markdown/save\" method=\"POST\" accept-charset=\"utf-8\" enctype=\"text/plain\">\n" ++
   "  Markdown:<br>\n" ++
   "  <input type=\"hidden\" name=\"postid\" value=\"").toList

/-- Behind the id, up to the text. -/
def editFormText : Text := "\">\n  <textarea name=\"text\">".toList

/-- Behind the text, up to the second id. -/
def editFormMiddle : Text :=
  ("</textarea><br>\n" ++
   "  <input type=\"submit\" id=\"submit-button\" value=\"Save\">\n" ++
   "</form>\n" ++
   "<form action= \"/markdown/delete\"  method=\"POST\">\n" ++
   "  <input type=\"hidden\" name=\"postid\" value=\"").toList

def editFormEnd : Text :=
  ("\">\n" ++
   "  <input type=\"submit\" value=\"Delete\">\n" ++
   "</form>").toList

/-- The edit form with an id and a text in its holes. -/
def editFormWith (id content : Text) : Text :=
  editFormStart ++ (id ++ (editFormText ++ (content ++ (editFormMiddle ++ (id ++ editFormEnd)))))

/-- The holes of the form are the words that the code searches for. -/
theorem editForm_eq : editForm = editFormWith "editsPID".toList "sffs".toList := by
  unfold editForm editFormWith editFormStart editFormText editFormMiddle editFormEnd
  simp only [String.toList_append, List.append_assoc]
  -- Spelling the literals out keeps them from being decoded by evaluation.
  repeat rw [String.toList_ofList]
  rfl

theorem find_sffs : Strings.find "sffs".toList
    ((editFormStart ++ ("editsPID".toList ++ editFormText)) ++ "sffs".toList) =
      some (editFormStart ++ ("editsPID".toList ++ editFormText)).length := by
  unfold editFormStart editFormText
  simp only [String.toList_append, List.append_assoc]
  repeat rw [String.toList_ofList]
  decide +kernel

theorem find_editsPID : Strings.find "editsPID".toList (editFormStart ++ "editsPID".toList) =
    some editFormStart.length := by
  unfold editFormStart
  simp only [String.toList_append, List.append_assoc]
  repeat rw [String.toList_ofList]
  decide +kernel

/-- The form begins with text that has no hole, up to a quotation mark. -/
theorem editFormStart_quote : Exists fun front : Text =>
    editFormStart = front ++ ['"'] ∧ Strings.find "editsPID".toList front = none := by
  refine ⟨editFormStart.dropLast, ?_, ?_⟩
  · unfold editFormStart
    simp only [String.toList_append, List.append_assoc]
    repeat rw [String.toList_ofList]
    rfl
  · unfold editFormStart
    simp only [String.toList_append, List.append_assoc]
    repeat rw [String.toList_ofList]
    decide +kernel

theorem editFormText_begins : Exists fun label : Text =>
    editFormText = '"' :: '>' :: '\n' :: label := by
  unfold editFormText
  rw [String.toList_ofList]
  exact ⟨_, rfl⟩

theorem editFormText_between : Exists fun label : Text =>
    editFormText = '"' :: (label ++ ['>']) ∧ Strings.find "editsPID".toList label = none := by
  unfold editFormText
  rw [String.toList_ofList]
  exact ⟨">\n  <textarea name=\"text\"".toList, rfl, by decide +kernel⟩

theorem editFormMiddle_between : Exists fun buttons : Text =>
    editFormMiddle = '<' :: (buttons ++ ['"']) ∧ '\n' ∈ buttons ∧
      Strings.find "editsPID".toList buttons = none := by
  refine ⟨editFormMiddle.tail.dropLast, ?_, ?_, ?_⟩
  all_goals
    unfold editFormMiddle
    simp only [String.toList_append, List.append_assoc]
    repeat rw [String.toList_ofList]
  · rfl
  · decide +kernel
  · decide +kernel

end HtmlAssets

namespace MarkdownRequestHandler

open HtmlAssets

/-- The edit page of a post with the given id and content. -/
def editPage (id content : Text) : Except Fault Text := do
  let body <- fillHole "sffs".toList content editForm
  let body <- fillHole "editsPID".toList id body
  fillHole "editsPID".toList id body

/-- After two holes have been filled, the third one is filled wherever it is found
first. -/
theorem editPage_eq (id content : Text) :
    editPage id content = fillHole "editsPID".toList id (editFormStart ++ (id ++ (editFormText ++
      (content ++ (editFormMiddle ++ ("editsPID".toList ++ editFormEnd)))))) := by
  have text := fillHole_append find_sffs content
    (editFormMiddle ++ ("editsPID".toList ++ editFormEnd))
  simp only [List.append_assoc] at text
  have first := fillHole_append find_editsPID id (editFormText ++ (content ++ (editFormMiddle ++
    ("editsPID".toList ++ editFormEnd))))
  rw [editPage, editForm_eq, editFormWith, text]
  simp only [bind, Except.bind]
  rw [first]

theorem editPage_isOk (id content : Text) :
    Exists fun body : Text => editPage id content = .ok body := by
  have occurs : "editsPID".toList <:+: editFormStart ++ (id ++ (editFormText ++ (content ++
      (editFormMiddle ++ ("editsPID".toList ++ editFormEnd))))) := by
    refine ⟨editFormStart ++ (id ++ (editFormText ++ (content ++ editFormMiddle))), editFormEnd, ?_⟩
    simp only [List.append_assoc]
  rcases fillHole_of_infix occurs id with ⟨before, after, _, filled⟩
  exact ⟨_, by rw [editPage_eq, filled]⟩

/-- The edit button has a hole for the id. -/
theorem editButton_isFilled (id : Text) :
    Exists fun filled : Text => fillHole "sffs".toList id editButton = .ok filled := by
  have button : "sffs".toList <:+: editButton := by
    rw [← Strings.find_isSome_iff]
    unfold editButton
    simp only [String.toList_append]
    repeat rw [String.toList_ofList]
    decide +kernel
  rcases fillHole_of_infix button id with ⟨before, after, _, filled⟩
  exact ⟨_, filled⟩

/-- No id is found across the quotation mark at the end of the form's beginning. -/
theorem find_behind_editFormStart (text : Text) :
    Strings.find "editsPID".toList (editFormStart ++ text) =
      (Strings.find "editsPID".toList text).map (fun offset => editFormStart.length + offset) := by
  rcases editFormStart_quote with ⟨front, startIs, noHole⟩
  rw [startIs, List.append_assoc, List.singleton_append,
    Strings.find_append_cons (by decide) (by decide), noHole, Option.none_or, List.length_append]
  rfl

/-! ## Where the second search stops -/

/-- What stands between the beginning of the form and the end of the text. -/
def pageFront (id content : Text) : Text := id ++ (editFormText ++ content)

theorem infix_pageFront_iff (id content : Text) :
    "editsPID".toList <:+: pageFront id content <->
      "editsPID".toList <:+: id ∨ "editsPID".toList <:+: content := by
  rcases editFormText_between with ⟨label, textIs, noHole⟩
  have absent := (Strings.find_eq_none_iff _ _).mp noHole
  have parts : pageFront id content = id ++ '"' :: (label ++ '>' :: content) := by
    rw [pageFront, textIs]
    simp
  rw [parts, Strings.infix_append_cons_iff (by decide) (by decide),
    Strings.infix_append_cons_iff (by decide) (by decide)]
  simp only [absent, false_or]

/-- Without the word in front of it, the search stops at the second hole. -/
theorem find_page_of_none {id content : Text}
    (absent : Strings.find "editsPID".toList (pageFront id content) = none) :
    Strings.find "editsPID".toList
        ((editFormStart ++ (pageFront id content ++ editFormMiddle)) ++ "editsPID".toList) =
      some (editFormStart ++ (pageFront id content ++ editFormMiddle)).length := by
  rcases editFormMiddle_between with ⟨buttons, middleIs, _, noHole⟩
  have hole : Strings.find "editsPID".toList "editsPID".toList = some 0 := by decide
  have parts : pageFront id content ++ editFormMiddle ++ "editsPID".toList =
      pageFront id content ++ '<' :: (buttons ++ '"' :: "editsPID".toList) := by
    rw [middleIs]
    simp
  rw [List.append_assoc, find_behind_editFormStart, parts,
    Strings.find_append_cons (by decide) (by decide), absent, Option.none_or,
    Strings.find_append_cons (by decide) (by decide), noHole, Option.none_or, hole]
  simp only [Option.map_some, Option.some.injEq, List.length_append, middleIs, List.length_cons,
    List.length_nil]
  omega

/-- Without the word in the id and in the text the page is the filled form. -/
theorem editPage_of_none {id content : Text}
    (absent : Strings.find "editsPID".toList (pageFront id content) = none) :
    editPage id content = .ok (editFormWith id content) := by
  have filled := fillHole_append (find_page_of_none absent) id editFormEnd
  simp only [pageFront, List.append_assoc] at filled
  rw [editPage_eq, filled, editFormWith]

/-- With it, the id is put into the place of its first occurrence, and the second
hole stays. -/
theorem editPage_of_some {id content before after : Text}
    (frontIs : pageFront id content = before ++ "editsPID".toList ++ after)
    (found : Strings.find "editsPID".toList (before ++ "editsPID".toList) = some before.length) :
    editPage id content = .ok (editFormStart ++ (before ++ (id ++ (after ++ (editFormMiddle ++
      ("editsPID".toList ++ editFormEnd)))))) := by
  have behind : Strings.find "editsPID".toList ((editFormStart ++ before) ++ "editsPID".toList) =
      some (editFormStart ++ before).length := by
    rw [List.append_assoc, find_behind_editFormStart, found, Option.map_some, List.length_append]
  have filled := fillHole_append behind id (after ++ (editFormMiddle ++ ("editsPID".toList ++ editFormEnd)))
  have page : id ++ (editFormText ++ (content ++ (editFormMiddle ++
      ("editsPID".toList ++ editFormEnd)))) = before ++ ("editsPID".toList ++ (after ++
        (editFormMiddle ++ ("editsPID".toList ++ editFormEnd)))) := by
    have whole := congrArg (fun front => front ++ (editFormMiddle ++ ("editsPID".toList ++
      editFormEnd))) frontIs
    simpa only [pageFront, List.append_assoc] using whole
  rw [editPage_eq, page]
  simpa only [List.append_assoc] using filled

/-- An occurrence in the text comes first if there is none in the id. -/
theorem find_inContent {id before : Text} (absent : ¬ "editsPID".toList <:+: id)
    (found : Strings.find "editsPID".toList (before ++ "editsPID".toList) = some before.length) :
    Strings.find "editsPID".toList (id ++ (editFormText ++ before) ++ "editsPID".toList) =
      some (id ++ (editFormText ++ before)).length := by
  rcases editFormText_between with ⟨label, textIs, noHole⟩
  have parts : id ++ (editFormText ++ before) ++ "editsPID".toList =
      id ++ '"' :: (label ++ '>' :: (before ++ "editsPID".toList)) := by
    rw [textIs]
    simp
  rw [parts, Strings.find_append_cons (by decide) (by decide),
    (Strings.find_eq_none_iff _ _).mpr absent, Option.none_or,
    Strings.find_append_cons (by decide) (by decide), noHole, Option.none_or, found, textIs]
  simp only [Option.map_some, Option.some.injEq, List.length_append, List.length_cons,
    List.length_nil]
  omega

/-- The page begins with the form and the id, or with a longer word where the id is
itself filled in. -/
theorem editPage_begins {id content body : Text} (oneLine : '\n' ∉ id)
    (page : editPage id content = .ok body) :
    Exists fun shown : Text => Exists fun rest : Text =>
      body = editFormStart ++ (shown ++ '"' :: '>' :: '\n' :: rest) ∧ '\n' ∉ shown ∧
        id.length ≤ shown.length ∧ ('P' ∉ id -> shown = id) := by
  rcases editFormText_begins with ⟨label, textIs⟩
  by_cases inId : "editsPID".toList <:+: id
  · rcases Strings.exists_first_occurrence inId with ⟨before, after, idIs, found⟩
    have frontIs : pageFront id content =
        before ++ "editsPID".toList ++ (after ++ (editFormText ++ content)) := by
      have whole := congrArg (fun front => front ++ (editFormText ++ content)) idIs
      simpa only [pageFront, List.append_assoc] using whole
    have bodyIs := Except.ok.inj (page.symm.trans (editPage_of_some frontIs found))
    have parts : before ++ after ⊆ id := by
      rw [idIs]
      intro c member
      rcases List.mem_append.mp member with inFront | behind
      · exact List.mem_append_left _ (List.mem_append_left _ inFront)
      · exact List.mem_append_right _ behind
    refine ⟨before ++ (id ++ after), label ++ (content ++ (editFormMiddle ++ ("editsPID".toList ++
      editFormEnd))), ?_, ?_, ?_, ?_⟩
    · rw [bodyIs, textIs]
      simp only [List.append_assoc, List.cons_append]
    · simp only [List.mem_append, not_or]
      exact ⟨fun member => oneLine (parts (List.mem_append_left _ member)), oneLine,
        fun member => oneLine (parts (List.mem_append_right _ member))⟩
    · simp only [List.length_append]
      omega
    · exact fun noLetter => absurd (inId.subset (by decide)) noLetter
  · by_cases inContent : "editsPID".toList <:+: content
    · rcases Strings.exists_first_occurrence inContent with ⟨before, after, contentIs, found⟩
      have frontIs : pageFront id content =
          id ++ (editFormText ++ before) ++ "editsPID".toList ++ after := by
        rw [pageFront, contentIs]
        simp only [List.append_assoc]
      have bodyIs := Except.ok.inj
        (page.symm.trans (editPage_of_some frontIs (find_inContent inId found)))
      simp only [textIs, List.append_assoc, List.cons_append] at bodyIs
      exact ⟨id, _, bodyIs, oneLine, Nat.le_refl _, fun _ => rfl⟩
    · have absent : ¬ "editsPID".toList <:+: pageFront id content := by
        rw [infix_pageFront_iff, not_or]
        exact ⟨inId, inContent⟩
      have bodyIs := Except.ok.inj
        (page.symm.trans (editPage_of_none ((Strings.find_eq_none_iff _ _).mpr absent)))
      rw [editFormWith, textIs] at bodyIs
      simp only [List.cons_append] at bodyIs
      exact ⟨id, _, bodyIs, oneLine, Nat.le_refl _, fun _ => rfl⟩

end MarkdownRequestHandler
end Handlers
end Webserver
