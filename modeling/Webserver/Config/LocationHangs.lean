import Webserver.Config.LocationTurns
import Webserver.Config.Parser
import Mathlib.Data.Bool.AllAny

namespace Webserver
namespace Config

/-!
# Where `ExtractLocation` never ends

A path goes on up to the next white space, a directory and an index up to one of the
characters that end them.  Where the rest of the file has none of these, the loop goes
on with the end-of-file mark.  Nothing else keeps the function from returning, since
every round that comes back has read a character.
-/

namespace LocationScan

open Loop (Turn Ends Reaches)

/-- The scan begins to read something that the rest of the file does not end: a path
without white space behind it, or a directory or an index without one of the characters
that end it. -/
def Endless (scan : LocationScan) (c : Char) (rest : Text) : Prop :=
  (c = '/' ∧ scan.validLocation = true ∧ forall d, d ∈ rest -> isspace d = false) ∨
  ((c = 'r' ∨ c = 'R') ∧ scan.Live ∧ Exists fun after : Text =>
    rest = "oot ".toList ++ after ∧ forall d, d ∈ after.dropWhile beforeDir -> inDir d = true) ∨
  ((c = 'i' ∨ c = 'I') ∧ scan.Live ∧ Exists fun after : Text =>
    rest = "ndex ".toList ++ after ∧ forall d, d ∈ after.dropWhile isspace -> inIndex d = true)

theorem pathTurn_hangs_iff (scan : LocationScan) (rest : Text) :
    scan.pathTurn rest = .hangs <->
      scan.validLocation = true ∧ forall d, d ∈ rest -> isspace d = false := by
  have spaceless : rest.dropWhile inPath = [] <-> forall d, d ∈ rest -> isspace d = false := by
    rw [List.dropWhile_eq_nil_iff]
    exact forall₂_congr fun d _ => by simp [inPath]
  rw [← spaceless, pathTurn]
  by_cases valid : scan.validLocation = true
  · by_cases endless : rest.dropWhile inPath = []
    · rw [if_pos valid, if_pos endless]
      exact iff_of_true rfl ⟨valid, endless⟩
    · rw [if_pos valid, if_neg endless]
      exact iff_of_false (fun hangs => by cases hangs) (fun both => endless both.2)
  · rw [if_neg valid]
    exact iff_of_false (fun hangs => by cases hangs) (fun both => valid both.1)

theorem keywordTurn_hangs_iff (scan missed : LocationScan) (keyword rest : Text)
    (found : Text -> Turn Spot LocationInfo) :
    scan.keywordTurn missed keyword rest found = .hangs <->
      scan.Live ∧ Exists fun after : Text => rest = keyword ++ after ∧ found after = .hangs := by
  rw [keywordTurn]
  by_cases live : scan.Live
  · rw [if_pos live]
    by_cases begins : keyword <+: rest
    · rw [if_pos begins]
      rcases begins with ⟨after, rfl⟩
      rw [List.drop_left]
      constructor
      · exact fun hangs => ⟨live, after, rfl, hangs⟩
      · rintro ⟨_, other, same, hangs⟩
        rw [List.append_cancel_left same]
        exact hangs
    · rw [if_neg begins]
      refine iff_of_false (fun hangs => by cases hangs) ?_
      rintro ⟨_, after, rfl, _⟩
      exact begins (List.prefix_append _ _)
  · rw [if_neg live]
    exact iff_of_false (fun hangs => by cases hangs) (fun both => live both.1)

theorem dirTurn_hangs_iff (scan : LocationScan) (behind : Text) :
    scan.dirTurn behind = .hangs <-> forall d, d ∈ behind -> inDir d = true := by
  rw [← List.dropWhile_eq_nil_iff, dirTurn]
  split
  · rename_i endless
    exact iff_of_true rfl endless
  · rename_i ended
    exact iff_of_false (fun hangs => by cases hangs) ended

theorem nameTurn_hangs_iff (scan : LocationScan) (spaces behind : Text) :
    scan.nameTurn spaces behind = .hangs <-> forall d, d ∈ behind -> inIndex d = true := by
  rw [← List.dropWhile_eq_nil_iff, nameTurn]
  split
  · rename_i endless
    exact iff_of_true rfl endless
  · rename_i ended
    exact iff_of_false (fun hangs => by cases hangs) ended

theorem rootTurn_hangs_iff (scan : LocationScan) (rest : Text) :
    scan.rootTurn rest = .hangs <->
      scan.Live ∧ Exists fun after : Text =>
        rest = "oot ".toList ++ after ∧ forall d, d ∈ after.dropWhile beforeDir -> inDir d = true := by
  rw [rootTurn, keywordTurn_hangs_iff]
  simp only [dirTurn_hangs_iff]

theorem indexTurn_hangs_iff (scan : LocationScan) (rest : Text) :
    scan.indexTurn rest = .hangs <->
      scan.Live ∧ Exists fun after : Text =>
        rest = "ndex ".toList ++ after ∧ forall d, d ∈ after.dropWhile isspace -> inIndex d = true := by
  rw [indexTurn, keywordTurn_hangs_iff]
  simp only [nameTurn_hangs_iff]

theorem charTurn_hangs_iff (scan : LocationScan) (c : Char) (rest : Text) :
    scan.charTurn c rest = .hangs <-> scan.Endless c rest := by
  have locationGoesOn : scan.locationTurn rest ≠ .hangs := by
    rw [locationTurn]
    split
    · exact fun hangs => by cases hangs
    · exact fun hangs => by cases hangs
  rw [Endless, ← pathTurn_hangs_iff, ← rootTurn_hangs_iff, ← indexTurn_hangs_iff]
  by_cases isSlash : c = '/'
  · subst isSlash
    simp [charTurn]
  by_cases isLocation : c = 'l' ∨ c = 'L'
  · rcases isLocation with rfl | rfl <;> simp [charTurn, locationGoesOn]
  by_cases isRoot : c = 'r' ∨ c = 'R'
  · rcases isRoot with rfl | rfl <;> simp [charTurn]
  by_cases isIndex : c = 'i' ∨ c = 'I'
  · rcases isIndex with rfl | rfl <;> simp [charTurn]
  · simp only [charTurn, isSlash, isLocation, isRoot, isIndex, if_false, false_and, or_false]
    split_ifs <;> simp

/-- The function returns exactly when it comes to nothing that it reads forever. -/
theorem extractLocation_returns_iff (text : Text) :
    (Exists fun limit : Nat => Exists fun info : LocationInfo =>
      extractLocation limit text = some info) <->
      forall scan c rest, Reaches turn (.initial, some text) (scan, some (c :: rest)) ->
        ¬ scan.Endless c rest := by
  have returns_iff : (Exists fun limit : Nat => Exists fun info : LocationInfo =>
      extractLocation limit text = some info) <->
      Exists fun info : LocationInfo => Ends turn (.initial, some text) info := by
    rw [exists_comm]
    exact exists_congr (extractLocation_ends_iff text)
  rw [returns_iff, Loop.ends_iff remaining turn_decreases]
  constructor
  · intro never scan c rest reaches endless
    exact never _ reaches ((charTurn_hangs_iff scan c rest).mpr endless)
  · rintro never ⟨scan, left⟩ reaches hangs
    match left, hangs, reaches with
    | some (c :: rest), hangs, reaches =>
        exact never scan c rest reaches ((charTurn_hangs_iff scan c rest).mp hangs)

/-- A comment at the end of the file is enough. -/
theorem commentedLocation_hangs :
    parse "a; # location /x".toList = .ok (true, .simple ["a".toList] .empty) ∧
      forall limit, extractLocation limit "a; # location /x".toList = none := by
  refine ⟨by decide, fun limit => ?_⟩
  by_contra returned
  rcases Option.ne_none_iff_exists'.mp returned with ⟨info, isInfo⟩
  refine (extractLocation_returns_iff _).mp ⟨limit, info, isInfo⟩ _ _ _
    (.later rfl (.later rfl (.later rfl (.later rfl (.later rfl (.later rfl (.here _))))))) ?_
  exact Or.inl ⟨rfl, rfl, List.all_iff_forall_prop.mp (by decide)⟩

end LocationScan

end Config
end Webserver
