import Webserver.Handlers.MarkdownPages

namespace Webserver
namespace Handlers

open Http Programs Storage

/-!
# How the edit page is filled in

The second search for the id goes through the content and through the id itself.
Where it stops too early, the word of the hole and the id have changed places, and the
page is another one than the filled form: a word without a line end has changed places
with the hole across a line end only if it is the word of the hole.
-/

namespace HtmlAssets

theorem unbordered_editsPID : Strings.Unbordered "editsPID".toList := by
  intro part starts ends
  have short := starts.length_le
  rw [List.prefix_iff_eq_take.mp starts] at ends ⊢
  revert ends
  have all : forall count : Nat, count ≤ 8 -> "editsPID".toList.take count <:+ "editsPID".toList ->
      "editsPID".toList.take count = [] ∨ "editsPID".toList.take count = "editsPID".toList := by
    decide
  exact all part.length short

end HtmlAssets

namespace MarkdownRequestHandler

open HtmlAssets

/-- The filled form, cut at an occurrence of the word in front of its second id. -/
theorem editFormWith_eq {id content before after : Text}
    (frontIs : pageFront id content = before ++ "editsPID".toList ++ after) :
    editFormWith id content = editFormStart ++ (before ++ ("editsPID".toList ++ (after ++
      (editFormMiddle ++ (id ++ editFormEnd))))) := by
  have whole := congrArg (fun front => editFormStart ++ (front ++ (editFormMiddle ++ (id ++
    editFormEnd)))) frontIs
  simpa only [editFormWith, pageFront, List.append_assoc] using whole

/-- The page with the second hole left open is the filled form only if the id is the
word in the hole. -/
theorem eq_hole_of_filled {id content before after : Text} (oneLine : '\n' ∉ id)
    (frontIs : pageFront id content = before ++ "editsPID".toList ++ after)
    (same : editFormStart ++ (before ++ (id ++ (after ++ (editFormMiddle ++
      ("editsPID".toList ++ editFormEnd))))) = editFormWith id content) :
    id = "editsPID".toList := by
  rcases editFormMiddle_between with ⟨buttons, middleIs, lineEnd, _⟩
  rw [editFormWith_eq frontIs] at same
  have inner := List.append_cancel_left (List.append_cancel_left same)
  simp only [← List.append_assoc] at inner
  have swapped := List.append_cancel_right inner
  have inside : '\n' ∈ after ++ editFormMiddle := by
    rw [middleIs]
    simp [lineEnd]
  have apart : (after ++ editFormMiddle).getLast? ≠ "editsPID".toList.getLast? := by
    rw [middleIs, ← List.cons_append, ← List.append_assoc, List.getLast?_concat]
    decide
  exact Strings.eq_of_swapped unbordered_editsPID inside oneLine apart
    (by simpa only [List.append_assoc] using swapped)

/-- The page is the filled form exactly when the id is the word in its holes or the word
occurs neither in the id nor in the text. -/
theorem editPage_isFilled_iff {id : Text} (oneLine : '\n' ∉ id) (content : Text) :
    editPage id content = .ok (editFormWith id content) <->
      id = "editsPID".toList ∨
        (¬ "editsPID".toList <:+: id ∧ ¬ "editsPID".toList <:+: content) := by
  rw [← not_or, ← infix_pageFront_iff]
  by_cases occurs : "editsPID".toList <:+: pageFront id content
  · rcases Strings.exists_first_occurrence occurs with ⟨before, after, frontIs, found⟩
    rw [editPage_of_some frontIs found, Except.ok.injEq]
    constructor
    · intro same
      exact Or.inl (eq_hole_of_filled oneLine frontIs same)
    · rintro (hole | absent)
      · rw [editFormWith_eq frontIs, hole]
      · exact absurd occurs absent
  · rw [editPage_of_none ((Strings.find_eq_none_iff _ _).mpr occurs)]
    exact iff_of_true rfl (Or.inr occurs)

/-! ## The answer of `edit` -/

section Answering

variable {State : Type} (answer : (op : FsCall) -> State -> FsCall.Reply op × State)
  (state : State) (handler : MarkdownRequestHandler) (req : Request) (res : Response)
  {path content : Text}

/-- When the content can be read, the body of the answer is the edit page. -/
theorem outcome_edit (placed : handler.constructFilePath (extractFileName req.body) = .ok path)
    (stored : (answer (.readFile path) state).1 = (true, content)) (body : Text) :
    (Exists fun reply : Response => (handler.edit req res).outcome answer state = .ok reply ∧
        reply.body = body) <->
      editPage (extractFileName req.body) content = .ok body := by
  rcases editPage_isOk (extractFileName req.body) content with ⟨shown, page⟩
  have filled := page
  rw [editPage] at filled
  rw [edit, placed, page]
  simp only [readFile, Program.ofExcept_ok, Program.done_bind, Program.outcome_perform_bind, stored,
    if_true, filled]
  constructor
  · rintro ⟨reply, isReply, same⟩
    rw [← Except.ok.inj isReply] at same
    exact congrArg Except.ok same
  · intro same
    exact ⟨_, rfl, Except.ok.inj same⟩

/-- The answer of `edit` is the form with the id and the content in its holes exactly
when the id is the word in the holes or the word occurs neither in the id nor in the
content, whatever the storage. -/
theorem edit_isFilled_iff
    (placed : handler.constructFilePath (extractFileName req.body) = .ok path)
    (stored : (answer (.readFile path) state).1 = (true, content)) :
    (Exists fun reply : Response => (handler.edit req res).outcome answer state = .ok reply ∧
        reply.body = editFormWith (extractFileName req.body) content) <->
      extractFileName req.body = "editsPID".toList ∨
        (¬ "editsPID".toList <:+: extractFileName req.body ∧ ¬ "editsPID".toList <:+: content) := by
  rw [outcome_edit answer state handler req res placed stored,
    editPage_isFilled_iff (extractFileName_oneLine req.body).1]

end Answering

/-- A storage where every file has the same content. -/
def sameEverywhere (content : Text) (op : FsCall) (state : Unit) : FsCall.Reply op × Unit :=
  match op with
  | .openInput _ => (some content, state)
  | .readFile _ => ((true, content), state)
  | .writeFile _ _ => (true, state)
  | .deleteFile _ => (true, state)
  | .listFiles _ => ((true, []), state)

theorem plainPost_isFilled :
    Exists fun reply : Response =>
      (MarkdownRequestHandler.edit ⟨"/markdown".toList, "posts".toList⟩
          ⟨.post, "/markdown/edit".toList, "postid=1".toList⟩ {}).outcome
        (sameEverywhere "a\n".toList) () = .ok reply ∧
      reply.body = editFormWith "1".toList "a\n".toList :=
  (edit_isFilled_iff (sameEverywhere "a\n".toList) () ⟨"/markdown".toList, "posts".toList⟩
    ⟨.post, "/markdown/edit".toList, "postid=1".toList⟩ {} rfl rfl).mpr
      (Or.inr ⟨by decide, by decide⟩)

/-- The id is filled into a content that has the word of the hole. -/
theorem holeInContent_isOverwritten :
    ¬ Exists fun reply : Response =>
      (MarkdownRequestHandler.edit ⟨"/markdown".toList, "posts".toList⟩
          ⟨.post, "/markdown/edit".toList, "postid=1".toList⟩ {}).outcome
        (sameEverywhere "editsPID\n".toList) () = .ok reply ∧
      reply.body = editFormWith "1".toList "editsPID\n".toList := by
  have oneLine : '\n' ∉ "1".toList := by decide
  have page := outcome_edit (sameEverywhere "editsPID\n".toList) ()
    ⟨"/markdown".toList, "posts".toList⟩ ⟨.post, "/markdown/edit".toList, "postid=1".toList⟩ {} rfl rfl
    (editFormWith "1".toList "editsPID\n".toList)
  have id : extractFileName "postid=1".toList = "1".toList := by decide
  rw [page, id, editPage_isFilled_iff oneLine]
  decide

end MarkdownRequestHandler
end Handlers
end Webserver
