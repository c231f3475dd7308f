import Webserver.Handlers.Indexing
import Webserver.Handlers.MarkdownPages

namespace Webserver
namespace Handlers

open Http Programs Storage

/-!
# Which action a target names

`serve` cuts the action out of the target behind the first `/markdown/`, wherever that
stands, and takes everything from the tenth character on where it does not occur.  The
length that it takes up to a question mark counts from the beginning of the target.  The
location under which the handler is configured is not looked at, so that both agree with
it only where it is `/markdown`.
-/

namespace MarkdownRequestHandler

section Operations

variable (handler : MarkdownRequestHandler) (convert : Text -> Except Fault Text) (junk : Nat -> CInt)

/-- The answer where an action names nothing. -/
def notImplemented (_ : Request) (res : Response) : Handling Response :=
  pure { res with result := .notImplemented }

end Operations

/-! ## Where the action is cut out -/

/-- `action_pos + 10`. -/
def actionStart (target : Text) : Nat := Strings.afterFind (Strings.find "/markdown/".toList target) 10

/-- How many characters are taken at most. -/
def actionCount (target : Text) : Nat :=
  match Strings.find ['?'] target with
  | none => target.length
  | some queryPos => if queryPos < 10 then target.length else queryPos - 10

theorem action_eq_ok_iff (target name : Text) :
    action target = .ok name <->
      actionStart target ≤ target.length ∧
        (target.drop (actionStart target)).take (actionCount target) = name := by
  have all : (target.drop (actionStart target)).take target.length =
      target.drop (actionStart target) := by
    apply List.take_of_length_le
    rw [List.length_drop]
    exact Nat.sub_le _ _
  rw [action, actionCount, ← actionStart]
  by_cases inside : actionStart target ≤ target.length
  · cases Strings.find ['?'] target with
    | none => simp [Strings.substr, inside, all]
    | some queryPos => simp [Strings.substrN, inside]
  · cases Strings.find ['?'] target with
    | none => simp [Strings.substr, inside]
    | some queryPos => simp [Strings.substrN, inside]

/-- The target of an action below a location, with a query or without one. -/
def actionTarget (location name : Text) (query : Option Text) : Text :=
  location ++ ['/'] ++ (name ++ query.elim [] (fun text => '?' :: text))

/-- Below `/markdown` the action is cut out as it is. -/
theorem action_markdown {name : Text} (noQuery : '?' ∉ name) (query : Option Text) :
    action (actionTarget "/markdown".toList name query) = .ok name := by
  have front : "/markdown".toList ++ ['/'] = "/markdown/".toList := rfl
  have size : "/markdown/".toList.length = 10 := rfl
  have hole : Strings.find "/markdown/".toList "/markdown/".toList = some 0 := by decide
  have start : actionStart (actionTarget "/markdown".toList name query) = 10 := by
    rw [actionStart, actionTarget, front, Strings.find_append_of_some hole]
    rfl
  have behind : (actionTarget "/markdown".toList name query).drop 10 =
      name ++ query.elim [] (fun text => '?' :: text) := by
    rw [actionTarget, front]
    exact List.drop_left' size
  have inside : 10 ≤ (actionTarget "/markdown".toList name query).length := by
    rw [actionTarget, front, List.length_append, size]
    exact Nat.le_add_right _ _
  have before : '?' ∉ "/markdown/".toList ++ name := by
    rw [List.mem_append, not_or]
    exact ⟨by decide, noQuery⟩
  rw [action_eq_ok_iff, start, behind]
  refine ⟨inside, ?_⟩
  cases query with
  | none =>
      have absent : Strings.find ['?'] (actionTarget "/markdown".toList name none) = none := by
        rw [Strings.find_singleton_eq_none_iff, actionTarget, front, Option.elim_none, List.append_nil]
        exact before
      rw [actionCount, absent, Option.elim_none, List.append_nil]
      apply List.take_of_length_le
      rw [actionTarget, List.length_append, Option.elim_none, List.append_nil]
      exact Nat.le_add_left _ _
  | some text =>
      have found : Strings.find ['?'] (actionTarget "/markdown".toList name (some text)) =
          some (10 + name.length) := by
        rw [actionTarget, front, Option.elim_some, ← List.append_assoc,
          Strings.find_singleton_append before, List.length_append, size]
      rw [actionCount, found, Option.elim_some]
      dsimp only
      rw [if_neg (Nat.not_lt.mpr (Nat.le_add_right 10 _)), Nat.add_sub_cancel_left, List.take_left]

/-! ## Locations where it is cut out right -/

section AtOnce

variable (handler : MarkdownRequestHandler) (convert : Text -> Except Fault Text) (junk : Nat -> CInt)
  (req : Request) (res : Response)

end AtOnce

end MarkdownRequestHandler
end Handlers
end Webserver
