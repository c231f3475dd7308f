import Webserver.Handlers.Markdown
import Webserver.Library.Html

namespace Webserver
namespace Handlers

open Http LexicalPaths Programs Storage

/-!
# The rows of the list page

`list` takes the joined names apart at the commas again and puts each part into
a row of a table as it is.  A browser reads the page in its own way: the text of
a row goes up to the next tag and the value of the hidden field up to the next
quotation mark.  A page can be taken apart into such rows in one way only.
-/

namespace MarkdownRequestHandler

open HtmlAssets

/-! ## The loop over the listing -/

theorem foldl_listStep_field (rows current : Text) {field : Text} (noComma : ',' ∉ field) :
    field.foldl listStep (rows, current) = (rows, current ++ field) := by
  induction field generalizing current with
  | nil => rw [List.foldl_nil, List.append_nil]
  | cons c rest inductionHypothesis =>
      have parts : ',' ≠ c ∧ ',' ∉ rest := by simpa [List.mem_cons, not_or] using noComma
      rw [List.foldl_cons, listStep, if_pos parts.1.symm, inductionHypothesis _ parts.2,
        List.append_assoc, List.singleton_append]

/-- A name with its comma becomes one row for each of its own fields. -/
theorem foldl_listStep_name (name rest rows : Text) :
    (name ++ ',' :: rest).foldl listStep (rows, []) =
      rest.foldl listStep (rows ++ (name.splitOn ',').flatMap listRow, []) := by
  induction name using Strings.separator_induction ',' generalizing rows with
  | last text noComma =>
      rw [List.foldl_append, foldl_listStep_field _ _ noComma, List.foldl_cons,
        List.splitOn_eq_singleton noComma]
      simp [listStep]
  | more before after noComma inductionHypothesis =>
      rw [List.append_assoc, List.cons_append, List.foldl_append,
        foldl_listStep_field _ _ noComma, List.foldl_cons, List.splitOn_append_cons_self,
        List.splitOn_eq_singleton noComma]
      simp only [listStep, ne_eq, not_true_eq_false, if_false, List.nil_append]
      rw [inductionHypothesis, List.flatMap_append, List.append_assoc, List.flatMap_singleton]

theorem foldl_listStep_names (names : List Name) (rows : Text) :
    (names.flatMap (fun name => name ++ [','])).foldl listStep (rows, []) =
      (rows ++ (names.flatMap (fun name => name.splitOn ',')).flatMap listRow, []) := by
  induction names generalizing rows with
  | nil => rw [List.flatMap_nil, List.flatMap_nil, List.flatMap_nil, List.append_nil, List.foldl_nil]
  | cons name rest inductionHypothesis =>
      rw [List.flatMap_cons, List.append_assoc, List.singleton_append, foldl_listStep_name,
        inductionHypothesis, List.flatMap_cons, List.flatMap_append, List.append_assoc]

/-- The page that `list` makes of a listing. -/
def listPage (listing : Bool × Text) : Text :=
  if listing.1 = true ∧ listing.2 ≠ [] then
    let (rows, postid) := listing.2.foldl listStep (listTableStart, [])
    let rows := if listing.2.getLast? ≠ some ',' then rows ++ listRow postid else rows
    rows ++ listTableEnd
  else "Nothing to see here".toList

/-- The page has a row for each field of each name. -/
theorem listPage_names {names : List Name} (present : names ≠ []) :
    listPage (true, names.flatMap (fun name => name ++ [','])) = listTableStart ++
      ((names.flatMap (fun name => name.splitOn ',')).flatMap listRow ++ listTableEnd) := by
  have ends : (names.flatMap (fun name => name ++ [','])).getLast? = some ',' := by
    rcases List.eq_nil_or_concat names |>.resolve_left present with ⟨front, last, rfl⟩
    rw [List.concat_eq_append, List.flatMap_append, List.flatMap_singleton, ← List.append_assoc,
      List.getLast?_concat]
  have nonempty : names.flatMap (fun name => name ++ [',']) ≠ [] := by
    intro empty
    rw [empty] at ends
    cases ends
  rw [listPage, if_pos ⟨rfl, nonempty⟩]
  simp only [foldl_listStep_names, ends, ne_eq, not_true_eq_false, if_false, List.append_assoc]

/-! ## Reading the page -/

/-- A row with the given text and the given value of the hidden field. -/
def pageRow (row : Text × Text) : Text :=
  listRowStart ++ row.1 ++ listRowMid ++ (listLineFormA ++ row.2 ++ listLineFormB) ++ listRowEnd

/-- The rows of a page as a browser finds them: a text goes up to the next tag and a
value up to the next quotation mark.  A page without a table has none. -/
def ShowsRows (page : Text) (rows : List (Text × Text)) : Prop :=
  (page = listTableStart ++ (rows.flatMap pageRow ++ listTableEnd) ∧
    forall row, row ∈ rows -> Html.tagFree row.1 = true ∧ '"' ∉ row.2) ∨
  (rows = [] ∧ ¬ "<tr>".toList <:+: page)

theorem listRow_eq (postid : Text) : listRow postid = pageRow (postid ++ [' '], postid) := by
  simp only [listRow, pageRow, List.append_assoc]
  rfl

/-- Behind the text of a row comes the end of its cell. -/
def rowMiddle : Text := "td><td>".toList

/-- Behind the value of a row, up to the next separator. -/
def rowButton : Text := "><input type=\"submit\" value=\"View\"><".toList

def rowEnd : Text := "form></td></tr>".toList

theorem pageRow_eq (row : Text × Text) : pageRow row =
    listRowStart ++ (row.1 ++ '<' :: '/' :: (rowMiddle ++ (listLineFormA ++
      (row.2 ++ '"' :: (rowButton ++ '/' :: rowEnd))))) := by
  have middle : listRowMid = '<' :: '/' :: rowMiddle := by
    unfold listRowMid rowMiddle
    repeat rw [String.toList_ofList]
  have behind : listLineFormB ++ listRowEnd = '"' :: (rowButton ++ '/' :: rowEnd) := by
    unfold listLineFormB listRowEnd rowButton rowEnd
    simp only [String.toList_append, List.append_assoc]
    repeat rw [String.toList_ofList]
    rfl
  simp only [pageRow, List.append_assoc, behind, middle, List.cons_append]

theorem slash_notMem_rowButton : '/' ∉ rowButton := by
  unfold rowButton
  rw [String.toList_ofList]
  decide

/-- The text of a row ends where its cell ends. -/
theorem text_of_row {text field before after : Text} (noTag : Html.tagFree text = true)
    (noSlash : '/' ∉ field)
    (same : text ++ '<' :: '/' :: before = field ++ ' ' :: '<' :: '/' :: after) :
    text = field ++ [' '] ∧ before = after := by
  rcases List.append_eq_append_iff.mp same with ⟨more, longer, rest⟩ | ⟨more, longer, rest⟩
  · -- The field would go on behind the tag.
    exfalso
    rcases more with _ | ⟨first, _ | ⟨second, others⟩⟩
    · cases rest
    · cases rest
    · obtain rfl : '/' = second := (List.cons.inj (List.cons.inj rest).2).1
      exact noSlash (by rw [longer]; simp)
  · rcases more with _ | ⟨first, _ | ⟨second, others⟩⟩
    · cases rest
    · cases rest
      exact ⟨longer, rfl⟩
    · -- The text would go on behind the tag.
      exfalso
      obtain rfl : '<' = second := (List.cons.inj (List.cons.inj rest).2).1
      rcases others with _ | ⟨third, others⟩
      · cases (List.cons.inj (List.cons.inj (List.cons.inj rest).2).2).1
      · obtain rfl : '/' = third := (List.cons.inj (List.cons.inj (List.cons.inj rest).2).2).1
        have parts : text = field ++ [first] ++ '<' :: '/' :: others := by rw [longer]; simp
        rw [parts, Html.tagFree_of_tag (by decide)] at noTag
        cases noTag

/-- The value of a row ends where its field ends. -/
theorem value_of_row {value field before after : Text} (noQuote : '"' ∉ value)
    (noSlash : '/' ∉ field)
    (same : value ++ '"' :: (rowButton ++ '/' :: before) =
      field ++ '"' :: (rowButton ++ '/' :: after)) :
    value = field ∧ before = after := by
  rcases List.append_eq_append_iff.mp same with ⟨more, longer, rest⟩ | ⟨more, longer, rest⟩
  · -- The next separator tells how much longer the field is.
    have part : '/' ∉ more := fun member => noSlash (by rw [longer]; exact List.mem_append_right _ member)
    have found := congrArg (Strings.find ['/']) rest
    have left : '/' ∉ '"' :: rowButton := by simp [slash_notMem_rowButton]
    have right : '/' ∉ more ++ '"' :: rowButton := by simp [part, slash_notMem_rowButton]
    rw [← List.cons_append, ← List.cons_append, ← List.append_assoc,
      Strings.find_singleton_append left, Strings.find_singleton_append right] at found
    have size := Option.some.inj found
    rw [List.length_append] at size
    obtain rfl : more = [] := List.length_eq_zero_iff.mp (by omega)
    rw [List.nil_append] at rest
    rw [List.append_nil] at longer
    exact ⟨longer.symm, (List.cons.inj (List.append_cancel_left (List.cons.inj rest).2)).2⟩
  · cases more with
    | nil =>
        rw [List.nil_append] at rest
        rw [List.append_nil] at longer
        exact ⟨longer, (List.cons.inj (List.append_cancel_left (List.cons.inj rest).2)).2.symm⟩
    | cons first others =>
        obtain rfl : '"' = first := (List.cons.inj rest).1
        exact absurd (by rw [longer]; simp) noQuote

theorem pageRow_ne_nil (row : Text × Text) : pageRow row ≠ [] := by
  rw [pageRow_eq]
  simp

/-- A table can be taken apart into rows in one way only. -/
theorem rows_of_fields {rows : List (Text × Text)} {fields : List Text} {rest : Text}
    (readable : forall row, row ∈ rows -> Html.tagFree row.1 = true ∧ '"' ∉ row.2)
    (noSlash : forall field, field ∈ fields -> '/' ∉ field)
    (same : rows.flatMap pageRow ++ rest = fields.flatMap listRow ++ rest) :
    rows = fields.map (fun field => (field ++ [' '], field)) := by
  induction rows generalizing fields with
  | nil =>
      cases fields with
      | nil => rfl
      | cons field others =>
          have empty := List.append_cancel_right same
          rw [List.flatMap_cons, listRow_eq, List.flatMap_nil] at empty
          exact absurd (List.append_eq_nil_iff.mp empty.symm).1 (pageRow_ne_nil _)
  | cons row others inductionHypothesis =>
      cases fields with
      | nil =>
          have empty := List.append_cancel_right same
          rw [List.flatMap_cons, List.flatMap_nil] at empty
          exact absurd (List.append_eq_nil_iff.mp empty).1 (pageRow_ne_nil _)
      | cons field fields =>
          have parts := readable row List.mem_cons_self
          have slash := noSlash field List.mem_cons_self
          rw [List.flatMap_cons, List.flatMap_cons, listRow_eq, pageRow_eq, pageRow_eq] at same
          simp only [List.append_assoc, List.cons_append, List.nil_append] at same
          rcases text_of_row parts.1 slash (List.append_cancel_left same) with ⟨text, behind⟩
          have values := List.append_cancel_left (List.append_cancel_left behind)
          rcases value_of_row parts.2 slash values with ⟨value, later⟩
          rw [List.map_cons, inductionHypothesis
            (fun row member => readable row (List.mem_cons_of_mem _ member))
            (fun field member => noSlash field (List.mem_cons_of_mem _ member))
            (List.append_cancel_left later)]
          rw [← text, ← value]

end MarkdownRequestHandler
end Handlers
end Webserver
