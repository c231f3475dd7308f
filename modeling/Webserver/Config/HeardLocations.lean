import Webserver.Config.Comments
import Webserver.Config.LocationTurns

namespace Webserver
namespace Config

/-!
# What is heard of the locations in a text with comments

The scan for the locations does not know comments either.  It takes the braces and the
keywords in them as it takes others, it reads paths, directories and indexes from them, and
it finds no name of a handler behind them.

`MapsOutside` follows the marks of a text once, with what has been heard so far: whether a
brace is open, whether a path is awaited, whether there has been one.  The text without its
comments is heard beside it, since a comment may open a brace that matters nowhere.
Comments make no difference where no path, directory or index is read from one, up to one
or across one, and none is read with the comments alone or without them alone.
-/

/-- What is heard on the way through a text. -/
structure Heard where
  insideBrace : Bool
  /-- `location ` has been heard, and no path behind it. -/
  validLocation : Bool
  hasPath : Bool
deriving DecidableEq

namespace Heard

/-- Directories and indexes are listened for. -/
def live (heard : Heard) : Bool := heard.insideBrace && heard.hasPath

/-- A path, a directory or an index begins. -/
def Begins (heard : Heard) (c : Char) (rest : Text) : Prop :=
  (c = '/' ∧ heard.validLocation = true) ∨
  ((c = 'r' ∨ c = 'R') ∧ heard.live = true ∧ "oot ".toList <+: rest) ∨
  ((c = 'i' ∨ c = 'I') ∧ heard.live = true ∧ "ndex ".toList <+: rest)

instance (heard : Heard) (c : Char) (rest : Text) : Decidable (heard.Begins c rest) :=
  inferInstanceAs (Decidable (_ ∨ _))

/-- A keyword is looked for: nothing more is heard when the text is too short for it. -/
def lookFor (heard : Heard) (keyword rest : Text) : Option Heard :=
  if keyword.length ≤ rest.length then some heard else none

/-- What has been heard behind a character at which nothing of the kind begins. -/
def after (heard : Heard) (c : Char) (rest : Text) : Option Heard :=
  if c = '{' then some { heard with insideBrace := true }
  else if c = '}' then some { heard with insideBrace := false }
  else if c = 'l' ∨ c = 'L' then
    if "ocation ".toList <+: rest then some { heard with validLocation := true }
    else heard.lookFor "ocation ".toList rest
  else if (c = 'r' ∨ c = 'R') ∧ heard.live = true then heard.lookFor "oot ".toList rest
  else if (c = 'i' ∨ c = 'I') ∧ heard.live = true then heard.lookFor "ndex ".toList rest
  else some heard

/-- What has been heard behind a path, a directory or an index. -/
def behindValue (heard : Heard) (c : Char) : Heard :=
  if c = '/' then { heard with validLocation := false, hasPath := true } else heard

end Heard

/-- Whether one begins for what has been heard, if the text is heard at all. -/
def begins (heard : Option Heard) (c : Char) (rest : Text) : Bool :=
  heard.any (fun heard => decide (heard.Begins c rest))

/-- How many characters belong to the `l` of a `location `. -/
def keywordRest (c : Char) (rest : Text) : Nat :=
  if (c = 'l' ∨ c = 'L') ∧ "ocation ".toList <+: rest then 8 else 0

/-- The signs behind a path and its handler, a directory, or an index. -/
def behindValue (c : Char) (rest : List Marked) : List Marked :=
  if c = '/' then
    beyond Char.isAlphanum (beyond isspace (beyond LocationScan.inPath rest))
  else if c = 'r' ∨ c = 'R' then
    beyond LocationScan.inDir (beyond LocationScan.beforeDir (rest.drop 4))
  else (beyond LocationScan.inIndex (beyond isspace (rest.drop 5))).tail

/-- The number of signs up to there. -/
def valueLength (c : Char) (rest : List Marked) : Nat := rest.length - (behindValue c rest).length

/-- A path and its handler, a directory or an index with no comment in it.  Where a comment
stands in place of the handler's name, no name stands behind the comments. -/
def ValueOutside (c : Char) (rest : List Marked) : Prop :=
  (forall sign, sign ∈ rest.take (valueLength c rest) -> sign.inComment = false) ∧
  (c = '/' -> (behindValue c rest).head?.any Marked.inComment = false ∨
    ((bare (behindValue c rest)).dropWhile isspace).head?.any Char.isAlphanum = false)

instance (c : Char) (rest : List Marked) : Decidable (ValueOutside c rest) :=
  inferInstanceAs (Decidable (_ ∧ _))

/-- From what has been heard with and without the comments: no path, directory or index
begins in a comment, and outside the comments one begins for both, without a comment in
it, or for neither.  The first signs may be passed over. -/
def MapsOutside : List Marked -> Option Heard -> Option Heard -> Nat -> Prop
  | [], _, _, _ => True
  | ⟨c, inComment⟩ :: rest, heard, heard', skip =>
      if 0 < skip then MapsOutside rest heard heard' (skip - 1)
      else if inComment = true then
        begins heard c (full rest) = false ∧
        (forall sign, sign ∈ rest.take (keywordRest c (full rest)) -> sign.inComment = true) ∧
        MapsOutside rest (heard.bind (fun heard => heard.after c (full rest))) heard'
          (keywordRest c (full rest))
      else
        begins heard' c (bare rest) = begins heard c (full rest) ∧
        if begins heard c (full rest) = true then
          ValueOutside c rest ∧
          MapsOutside rest (heard.map (fun heard => heard.behindValue c))
            (heard'.map (fun heard => heard.behindValue c)) (valueLength c rest)
        else
          MapsOutside rest (heard.bind (fun heard => heard.after c (full rest)))
            (heard'.bind (fun heard => heard.after c (bare rest))) (keywordRest c (full rest))

instance decidableMapsOutside : forall (signs : List Marked) (heard heard' : Option Heard) (skip : Nat),
    Decidable (MapsOutside signs heard heard' skip)
  | [], _, _, _ => isTrue trivial
  | ⟨_, _⟩ :: rest, _, _, _ =>
      have := decidableMapsOutside rest
      inferInstanceAs (Decidable (ite _ _ (ite _ _ _)))

/-- Nothing has been heard yet. -/
def Heard.nothing : Heard := ⟨false, false, false⟩

/-- The signs can be passed over. -/
theorem mapsOutside_skip {heard heard' : Option Heard} {span rest : List Marked}
    (outside : MapsOutside (span ++ rest) heard heard' span.length) : MapsOutside rest heard heard' 0 := by
  induction span with
  | nil => exact outside
  | cons sign span inductionHypothesis =>
      apply inductionHypothesis
      rw [List.cons_append, MapsOutside, if_pos (by simp)] at outside
      exact outside

namespace LocationScan

open Loop (Turn)

/-- The round reads a path, a directory or an index. -/
def ReadsValue (scan : LocationScan) (c : Char) (rest : Text) : Prop :=
  (c = '/' ∧ scan.validLocation = true) ∨
  ((c = 'r' ∨ c = 'R') ∧ scan.Live ∧ "oot ".toList <+: rest) ∨
  ((c = 'i' ∨ c = 'I') ∧ scan.Live ∧ "ndex ".toList <+: rest)

instance (scan : LocationScan) (c : Char) (rest : Text) : Decidable (scan.ReadsValue c rest) :=
  inferInstanceAs (Decidable (_ ∨ _))

/-- The scan goes on with the text, or ends because nothing is left of it. -/
def GoesOn (outcome : Turn Spot LocationInfo) (next : LocationScan) (text : Text) : Prop :=
  outcome = .goOn (next, some text) ∨ outcome = .goOn (next, none) ∧ text = []

/-- What the two scans have read is the same. -/
structure Alike (scan scan' : LocationScan) : Prop where
  pathName : scan'.pathName = scan.pathName
  indexName : scan'.indexName = scan.indexName
  locInfo : scan'.locInfo = scan.locInfo

/-! ## What is heard -/

/-- What has been heard when the scan has these values. -/
def heard (scan : LocationScan) : Heard :=
  ⟨scan.insideBrace, scan.validLocation, decide (scan.pathName ≠ [])⟩

theorem live_iff (scan : LocationScan) : scan.Live <-> scan.heard.live = true := by
  rw [Live, heard, Heard.live, Bool.and_eq_true, decide_eq_true_eq]

theorem readsValue_iff (scan : LocationScan) (c : Char) (rest : Text) :
    scan.ReadsValue c rest <-> scan.heard.Begins c rest := by
  rw [ReadsValue, Heard.Begins, live_iff]
  rfl

/-- The scan goes on where one goes on that listens, unless both have come to the end. -/
def Follows (outcome : Turn Spot LocationInfo) (heard : Option Heard) (text : Text) : Prop :=
  Exists fun next : LocationScan => outcome = .goOn (next, heard.map (fun _ => text)) ∧
    forall known, heard = some known -> next.heard = known

/-- A search for a keyword that is not there. -/
theorem follows_lookFor {scan missed : LocationScan} (same : missed.heard = scan.heard)
    (keyword rest : Text) :
    Follows (.goOn (missed, putBack keyword rest)) (scan.heard.lookFor keyword rest) rest := by
  rw [putBack, Heard.lookFor]
  split
  · exact ⟨missed, rfl, fun known found => same.trans (Option.some.inj found)⟩
  · exact ⟨missed, rfl, fun known found => by cases found⟩

/-- A round that does not look for anything. -/
theorem follows_here {next : LocationScan} {known : Heard} (same : next.heard = known) (rest : Text) :
    Follows (.goOn (next, some rest)) (some known) rest :=
  ⟨next, rfl, fun _ found => same.trans (Option.some.inj found)⟩

/-- Behind a character at which nothing is read the scan is where listening is. -/
theorem charTurn_after {scan : LocationScan} {c : Char} {rest : Text}
    (noValue : ¬ scan.ReadsValue c rest) :
    Follows (scan.charTurn c rest) (scan.heard.after c rest) (rest.drop (keywordRest c rest)) := by
  simp only [ReadsValue, not_or, not_and] at noValue
  rw [charTurn, Heard.after, keywordRest]
  by_cases isOpen : c = '\x7b'
  · subst isOpen
    exact follows_here rfl rest
  by_cases isClose : c = '\x7d'
  · subst isClose
    exact follows_here rfl rest
  by_cases isSlash : c = '/'
  · subst isSlash
    rw [if_neg isOpen, if_neg isClose, if_pos rfl, pathTurn, if_neg (noValue.1 rfl)]
    exact follows_here rfl rest
  rw [if_neg isOpen, if_neg isClose, if_neg isOpen, if_neg isClose, if_neg isSlash]
  by_cases isLocation : c = 'l' ∨ c = 'L'
  · rw [if_pos isLocation, if_pos isLocation, locationTurn]
    by_cases begins : "ocation ".toList <+: rest
    · rw [if_pos begins, if_pos begins, if_pos ⟨isLocation, begins⟩]
      exact follows_here rfl _
    · rw [if_neg begins, if_neg begins, if_neg (fun both => begins both.2), List.drop_zero]
      exact follows_lookFor rfl _ _
  have noKeyword : ¬((c = 'l' ∨ c = 'L') ∧ "ocation ".toList <+: rest) := fun both => isLocation both.1
  rw [if_neg isLocation, if_neg isLocation, if_neg noKeyword, List.drop_zero]
  by_cases isRoot : c = 'r' ∨ c = 'R'
  · have notIndex : ¬((c = 'i' ∨ c = 'I') ∧ scan.heard.live = true) := by
      rcases isRoot with rfl | rfl
      · simp
      · simp
    rw [if_pos isRoot, rootTurn, keywordTurn]
    by_cases live : scan.Live
    · rw [if_pos live, if_neg (noValue.2.1 isRoot live), if_pos ⟨isRoot, (live_iff scan).mp live⟩]
      exact follows_lookFor rfl _ _
    · have notRoot : ¬((c = 'r' ∨ c = 'R') ∧ scan.heard.live = true) :=
        fun both => live ((live_iff scan).mpr both.2)
      rw [if_neg live, if_neg notRoot, if_neg notIndex]
      exact follows_here rfl _
  have notRoot : ¬((c = 'r' ∨ c = 'R') ∧ scan.heard.live = true) := fun both => isRoot both.1
  rw [if_neg isRoot, if_neg notRoot]
  by_cases isIndex : c = 'i' ∨ c = 'I'
  · rw [if_pos isIndex, indexTurn, keywordTurn]
    by_cases live : scan.Live
    · rw [if_pos live, if_neg (noValue.2.2 isIndex live), if_pos ⟨isIndex, (live_iff scan).mp live⟩]
      exact follows_lookFor rfl _ _
    · have notIndex : ¬((c = 'i' ∨ c = 'I') ∧ scan.heard.live = true) :=
        fun both => live ((live_iff scan).mpr both.2)
      rw [if_neg live, if_neg notIndex]
      exact follows_here rfl _
  · have notIndex : ¬((c = 'i' ∨ c = 'I') ∧ scan.heard.live = true) := fun both => isIndex both.1
    rw [if_neg isIndex, if_neg notIndex]
    exact follows_here rfl _

theorem drop_full (count : Nat) (signs : List Marked) :
    (full signs).drop count = full (signs.drop count) := by
  rw [full, full, List.map_drop]

theorem tail_full (signs : List Marked) : full signs.tail = (full signs).tail := by
  rw [full, full, List.map_tail]

theorem goesOn_of_resume {next : LocationScan} (text : Text) :
    GoesOn (.goOn (next, resume text)) next text := by
  rw [resume]
  split
  · rename_i empty
    exact Or.inr ⟨rfl, empty⟩
  · exact Or.inl rfl

/-- A value is read to its end, or forever. -/
theorem charTurn_value {scan : LocationScan} {c : Char} {rest : List Marked}
    (reads : scan.ReadsValue c (full rest)) :
    scan.charTurn c (full rest) = .hangs ∨ Exists fun next : LocationScan =>
      GoesOn (scan.charTurn c (full rest)) next (full (behindValue c rest)) ∧
        next.heard = scan.heard.behindValue c := by
  rcases reads with ⟨rfl, valid⟩ | ⟨isRoot, live, found⟩ | ⟨isIndex, live, found⟩
  · change scan.pathTurn (full rest) = .hangs ∨ Exists fun next : LocationScan =>
      GoesOn (scan.pathTurn (full rest)) next _ ∧ _
    rw [pathTurn, if_pos valid]
    by_cases spaceless : (full rest).dropWhile inPath = []
    · exact Or.inl (if_pos spaceless)
    · rw [if_neg spaceless]
      dsimp only
      rw [dropWhile_full, dropWhile_full, dropWhile_full]
      exact Or.inr ⟨_, goesOn_of_resume _, rfl⟩
  · have same : scan.charTurn c (full rest) = scan.rootTurn (full rest) ∧
        behindValue c rest = beyond inDir (beyond beforeDir (rest.drop 4)) ∧
        scan.heard.behindValue c = scan.heard := by
      rcases isRoot with rfl | rfl <;> exact ⟨rfl, rfl, rfl⟩
    rw [same.1, same.2.1, same.2.2, rootTurn, keywordTurn, if_pos live, if_pos found, dirTurn]
    by_cases endless : (((full rest).drop 4).dropWhile beforeDir).dropWhile inDir = []
    · exact Or.inl (if_pos endless)
    · right
      change Exists fun next : LocationScan => GoesOn (if (((full rest).drop 4).dropWhile
        beforeDir).dropWhile inDir = [] then .hangs else _) next _ ∧ _
      rw [if_neg endless]
      refine ⟨scan.atRoot ((((full rest).drop 4).dropWhile beforeDir).takeWhile inDir), Or.inl ?_, rfl⟩
      rw [← dropWhile_full, ← dropWhile_full, ← drop_full]
      rfl
  · have same : scan.charTurn c (full rest) = scan.indexTurn (full rest) ∧
        behindValue c rest = (beyond inIndex (beyond isspace (rest.drop 5))).tail ∧
        scan.heard.behindValue c = scan.heard := by
      rcases isIndex with rfl | rfl <;> exact ⟨rfl, rfl, rfl⟩
    rw [same.1, same.2.1, same.2.2, indexTurn, keywordTurn, if_pos live, if_pos found, nameTurn]
    by_cases endless : (((full rest).drop 5).dropWhile isspace).dropWhile inIndex = []
    · exact Or.inl (if_pos endless)
    · right
      change Exists fun next : LocationScan => GoesOn (if (((full rest).drop 5).dropWhile
        isspace).dropWhile inIndex = [] then .hangs else _) next _ ∧ _
      rw [if_neg endless]
      refine ⟨scan.atIndex ((((full rest).drop 5).takeWhile isspace).foldl InputStream.clear scan.indexName ++
        (((full rest).drop 5).dropWhile isspace).takeWhile inIndex), Or.inl ?_, rfl⟩
      rw [tail_full, ← dropWhile_full, ← dropWhile_full, ← drop_full]
      rfl

theorem behindValue_suffix (c : Char) (rest : List Marked) : behindValue c rest <:+ rest := by
  rw [behindValue]
  split
  · exact (List.dropWhile_suffix _).trans ((List.dropWhile_suffix _).trans (List.dropWhile_suffix _))
  · split
    · exact (List.dropWhile_suffix _).trans ((List.dropWhile_suffix _).trans (List.drop_suffix _ _))
    · exact (List.tail_suffix _).trans ((List.dropWhile_suffix _).trans
        ((List.dropWhile_suffix _).trans (List.drop_suffix _ _)))

end LocationScan
end Config
end Webserver
