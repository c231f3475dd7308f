import Webserver.Handlers.MarkdownRuns

namespace Webserver
namespace Handlers

open Http Programs Storage

/-!
# The body that the edit form submits

A form of type `text/plain` sends each field on a line of its own, without escaping:
the id, a line end, the text as it is, a line end.  Both fields are searched for in
the whole body.  The id is cut off at its line end, and the text loses all line ends
behind it.  The loop that takes them off does not look whether there is a character
left.
-/

namespace MarkdownRequestHandler

/-- The two fields as the browser sends them. -/
def saveBody (id text : Text) : Text :=
  ("postid=".toList ++ id ++ ['\r', '\n']) ++ ("text=".toList ++ (text ++ ['\r', '\n']))

theorem saveBody_append (id text run : Text) :
    saveBody id (text ++ run) = "postid=".toList ++ id ++ ['\r', '\n'] ++
      ("text=".toList ++ (text ++ (run ++ ['\r', '\n']))) :=
  congrArg (fun field => "postid=".toList ++ id ++ ['\r', '\n'] ++ ("text=".toList ++ field))
    (List.append_assoc text run ['\r', '\n'])

/-- The id is read up to its line end. -/
theorem extractFileName_field {id : Text} (oneLine : OneLine id) (second : Text) :
    extractFileName ("postid=".toList ++ id ++ ['\r', '\n'] ++ second) = id := by
  have hole : Strings.find "postid=".toList "postid=".toList = some 0 := by decide
  have behind : '\n' ∉ id ++ ['\r'] := by simp [oneLine.1]
  have parts : "postid=".toList ++ id ++ ['\r', '\n'] ++ second =
      "postid=".toList ++ ((id ++ ['\r']) ++ '\n' :: second) := by simp
  have field : ("postid=".toList ++ ((id ++ ['\r']) ++ '\n' :: second)).drop (0 + 7) =
      (id ++ ['\r']) ++ '\n' :: second := List.drop_left' rfl
  rw [parts, extractFileName, Strings.find_append_of_some hole]
  dsimp only
  rw [field, cutBefore_append behind, cutBefore_append oneLine.2]

/-- The first field is not taken for the second. -/
theorem notInfix_field {id : Text} (noField : ¬ "text=".toList <:+: id) :
    ¬ "text=".toList <:+: "postid=".toList ++ id := by
  have parts : "postid=".toList ++ id = "post".toList ++ 'i' :: ([] ++ 'd' :: '=' :: id) := by simp
  rw [parts, Strings.infix_append_cons_iff (by decide) (by decide),
    Strings.infix_append_cons_iff (by decide) (by decide), List.infix_cons_iff]
  rintro (inName | empty | starts | inId)
  · exact absurd inName (by decide)
  · exact absurd (List.infix_nil.mp empty) (by decide)
  · exact absurd (List.cons_prefix_cons.mp starts).1 (by decide)
  · exact noField inId

/-- The search for the second field stops at it. -/
theorem find_text {id : Text} (noField : ¬ "text=".toList <:+: id) :
    Strings.find "text=".toList ("postid=".toList ++ id ++ ['\r', '\n'] ++ "text=".toList) =
      some ("postid=".toList ++ id ++ ['\r', '\n']).length := by
  have hole : Strings.find "text=".toList "text=".toList = some 0 := by decide
  have front : Strings.find "text=".toList ("postid=".toList ++ id) = none :=
    (Strings.find_eq_none_iff _ _).mpr (notInfix_field noField)
  have parts : "postid=".toList ++ id ++ ['\r', '\n'] ++ "text=".toList =
      "postid=".toList ++ id ++ '\r' :: ([] ++ '\n' :: "text=".toList) := by simp
  have nothing : Strings.find "text=".toList [] = none := by decide
  rw [parts, Strings.find_append_cons (by decide) (by decide), front, Option.none_or,
    Strings.find_append_cons (by decide) (by decide), nothing, Option.none_or, hole]
  simp [Nat.add_assoc]

/-! ## The trimming loop -/

/-- What the loop of `extract_text` takes off the end of the text. -/
def IsLineEnd (c : Char) : Prop := c = '\n' ∨ c = '\r'

instance (c : Char) : Decidable (IsLineEnd c) := inferInstanceAs (Decidable (_ ∨ _))

theorem trimLineEnds_cons (last : Char) (front : Text) :
    trimLineEnds (last :: front) =
      if IsLineEnd last then trimLineEnds front else .ok (last :: front) := rfl

/-- The loop takes off a run of line ends and stops at the character in front of it. -/
theorem trimLineEnds_append {run : Text} (ends : forall c, c ∈ run -> IsLineEnd c) {last : Char}
    (inLine : ¬ IsLineEnd last) (front : Text) :
    trimLineEnds (run ++ last :: front) = .ok (last :: front) := by
  induction run with
  | nil => rw [List.nil_append, trimLineEnds_cons, if_neg inLine]
  | cons c run inductionHypothesis =>
      rw [List.cons_append, trimLineEnds_cons, if_pos (ends c List.mem_cons_self)]
      exact inductionHypothesis (fun d later => ends d (List.mem_cons_of_mem c later))

/-- Some character other than a line end has to stop the loop. -/
theorem trimLineEnds_inBounds_iff (reversed : Text) :
    trimLineEnds reversed ≠ .error .undefinedBehavior <->
      Exists fun c : Char => c ∈ reversed ∧ ¬ IsLineEnd c := by
  induction reversed with
  | nil => simp [trimLineEnds]
  | cons last front inductionHypothesis =>
      rw [trimLineEnds_cons]
      by_cases lineEnd : IsLineEnd last
      · rw [if_pos lineEnd, inductionHypothesis]
        simp [lineEnd]
      · rw [if_neg lineEnd]
        exact iff_of_true (by simp) ⟨last, List.mem_cons_self, lineEnd⟩

/-- The loop stays within its string exactly when a character that is no line end stands
behind the first `text=`, if there is one. -/
theorem extractText_inBounds_iff (str : Text) :
    extractText str ≠ .error .undefinedBehavior <->
      forall textPos, Strings.find "text=".toList str = some textPos ->
        Exists fun c : Char => c ∈ str.drop (textPos + 5) ∧ ¬ IsLineEnd c := by
  rw [extractText]
  cases found : Strings.find "text=".toList str with
  | none => simp
  | some textPos =>
      have trims := trimLineEnds_inBounds_iff (str.drop (textPos + 5)).reverse
      simp only [List.mem_reverse] at trims
      simp only [Option.some.injEq, forall_eq', ← trims]
      cases trimLineEnds (str.drop (textPos + 5)).reverse with
      | error fault => simp [Except.map]
      | ok text => simp [Except.map]

/-- A post that is saved as it was created has an empty text, and the loop takes off
everything behind the field's name. -/
theorem emptyText_outOfBounds :
    extractText (saveBody "1".toList []) = .error .undefinedBehavior := by decide

/-- The text is read up to the line ends behind it. -/
theorem extractText_field {first : Text}
    (found : Strings.find "text=".toList (first ++ "text=".toList) = some first.length)
    (front : Text) {last : Char} (inLine : ¬ IsLineEnd last) {run : Text}
    (ends : forall c, c ∈ run -> IsLineEnd c) :
    extractText (first ++ ("text=".toList ++ (front ++ [last] ++ run))) = .ok (front ++ [last]) := by
  have whole := Strings.find_append_of_some found (front ++ [last] ++ run)
  rw [List.append_assoc first] at whole
  have field : ("text=".toList ++ (front ++ [last] ++ run)).drop 5 = front ++ [last] ++ run :=
    List.drop_left' rfl
  have reversed : (front ++ [last] ++ run).reverse = run.reverse ++ last :: front.reverse := by simp
  have trimmed := trimLineEnds_append (fun c member => ends c (List.mem_reverse.mp member)) inLine
    front.reverse
  rw [extractText, whole]
  dsimp only
  rw [List.drop_length_add_append, field, reversed, trimmed, Except.map]
  simp

/-! ## Saving -/

/-- A program that computes a path, writes the data there, and then only reads. -/
def WritesOnce (handling : Handling Response) (path : Except Fault Text) (data : Text) : Prop :=
  Exists fun next : Bool -> Handling Response =>
    handling = (Program.ofExcept path >>= fun path => writeFile path data >>= next) ∧
      forall written, (next written).CallsOnly
        (fun call => Exists fun path : Text => call = .readFile path)

variable (handler : MarkdownRequestHandler) (convert : Text -> Except Fault Text)

/-- A save request with both fields writes the text to the file of the post, without the
line ends behind it. -/
theorem save_writesTrimmed {id text : Text} (named : id ≠ []) (oneLine : OneLine id)
    (noField : ¬ "text=".toList <:+: id) {last : Char} (ends : text.getLast? = some last)
    (inLine : ¬ IsLineEnd last) {run : Text} (trimmed : forall c, c ∈ run -> IsLineEnd c)
    (req : Request) (isForm : req.body = saveBody id (text ++ run)) (res : Response) :
    WritesOnce (handler.save convert req res) (handler.constructFilePath id) text := by
  rcases List.getLast?_eq_some_iff.mp ends with ⟨front, rfl⟩
  have isId : extractFileName req.body = id := by
    rw [isForm]
    exact extractFileName_field oneLine _
  have lineEnds : forall c, c ∈ run ++ ['\r', '\n'] -> IsLineEnd c := by
    intro c member
    rcases List.mem_append.mp member with inRun | behind
    · exact trimmed c inRun
    · simpa [IsLineEnd, or_comm] using behind
  have isText : extractText req.body = .ok (front ++ [last]) := by
    rw [isForm, saveBody_append]
    exact extractText_field (find_text noField) front inLine lineEnds
  rw [save]
  simp only [isId, isText, if_neg named, Program.ofExcept_ok, Program.done_bind]
  refine ⟨_, rfl, fun written => ?_⟩
  exact Program.CallsOnly.ite (Program.CallsOnly.pure _) (view_reads _ _ _)

/-- A save request with both fields writes the text to the file of the post. -/
theorem save_writesText {id text : Text} (named : id ≠ []) (oneLine : OneLine id)
    (noField : ¬ "text=".toList <:+: id) {last : Char} (ends : text.getLast? = some last)
    (inLine : last ≠ '\n' ∧ last ≠ '\r') (req : Request) (isForm : req.body = saveBody id text)
    (res : Response) :
    WritesOnce (handler.save convert req res) (handler.constructFilePath id) text := by
  have nothingBehind : forall c, c ∈ ([] : Text) -> IsLineEnd c := by simp
  rw [← List.append_nil text] at isForm
  exact save_writesTrimmed handler convert named oneLine noField ends (not_or.mpr inLine)
    nothingBehind req isForm res

theorem quotedFields_areWritten :
    WritesOnce (save ⟨"/markdown".toList, "posts".toList⟩ .ok
        ⟨.post, "/markdown/save".toList, saveBody "1".toList "a\ntext=postid=b".toList⟩ {})
      (constructFilePath ⟨"/markdown".toList, "posts".toList⟩ "1".toList)
      "a\ntext=postid=b".toList :=
  save_writesText ⟨"/markdown".toList, "posts".toList⟩ .ok (by decide) (by decide) (by decide)
    (show "a\ntext=postid=b".toList.getLast? = some 'b' by decide) (by decide) _ rfl {}

/-- A post without an id is refused, and nothing is written. -/
theorem emptyId_isNotWritten :
    (OneLine [] ∧ ¬ "text=".toList <:+: ([] : Text)) ∧
      ¬ WritesOnce (save ⟨"/markdown".toList, "posts".toList⟩ .ok
          ⟨.post, "/markdown/save".toList, saveBody [] "a".toList⟩ {})
        (constructFilePath ⟨"/markdown".toList, "posts".toList⟩ []) "a".toList := by
  refine ⟨by decide, ?_⟩
  rintro ⟨next, same, _⟩
  have noId : extractFileName (saveBody [] "a".toList) = [] := by decide
  rw [save] at same
  simp only [noId, if_true] at same
  cases same

end MarkdownRequestHandler
end Handlers
end Webserver
