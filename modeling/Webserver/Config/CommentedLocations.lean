import Webserver.Config.CommentedPorts
import Webserver.Config.HeardLocations
import Webserver.Config.LocationHangs

namespace Webserver
namespace Config

/-!
# Comments and `ExtractLocation`

Where `MapsOutside` holds, the scan of a text and that of the text without its comments
find the same maps.  The two go along the text side by side: on a comment only the first
takes rounds, and these read nothing.
-/

namespace LocationScan

open Loop (Turn Ends)

/-! ## Rounds that read no value -/

theorem Alike.refl (scan : LocationScan) : Alike scan scan := ⟨rfl, rfl, rfl⟩

theorem Alike.trans {first second third : LocationScan} (begins : Alike first second)
    (ends : Alike second third) : Alike first third :=
  ⟨ends.pathName.trans begins.pathName, ends.indexName.trans begins.indexName,
    ends.locInfo.trans begins.locInfo⟩

theorem Alike.symm {first second : LocationScan} (alike : Alike first second) : Alike second first :=
  ⟨alike.pathName.symm, alike.indexName.symm, alike.locInfo.symm⟩

/-- Such a round changes at most a flag and the directory. -/
theorem charTurn_plain {scan next : LocationScan} {c : Char} {rest : Text} {left : Option Text}
    (noValue : ¬ scan.ReadsValue c rest) (round : scan.charTurn c rest = .goOn (next, left)) :
    Alike scan next := by
  have goesOn : forall {scan' : LocationScan} {left' : Option Text},
      (.goOn (scan', left') : Turn Spot LocationInfo) = .goOn (next, left) -> Alike scan scan' ->
      Alike scan next := by
    intro scan' left' same alike
    injection same with same
    obtain rfl : scan' = next := congrArg Prod.fst same
    exact alike
  simp only [ReadsValue, not_or, not_and] at noValue
  rw [charTurn] at round
  split_ifs at round with isOpen isClose isSlash isLocation isRoot isIndex
  · exact goesOn round ⟨rfl, rfl, rfl⟩
  · exact goesOn round ⟨rfl, rfl, rfl⟩
  · rw [pathTurn, if_neg (noValue.1 isSlash)] at round
    exact goesOn round (Alike.refl scan)
  · rw [locationTurn] at round
    split at round
    · exact goesOn round ⟨rfl, rfl, rfl⟩
    · exact goesOn round (Alike.refl scan)
  · rw [rootTurn, keywordTurn] at round
    by_cases live : scan.Live
    · rw [if_pos live, if_neg (noValue.2.1 isRoot live)] at round
      exact goesOn round ⟨rfl, rfl, rfl⟩
    · rw [if_neg live] at round
      exact goesOn round (Alike.refl scan)
  · rw [indexTurn, keywordTurn] at round
    by_cases live : scan.Live
    · rw [if_pos live, if_neg (noValue.2.2 isIndex live)] at round
      exact goesOn round (Alike.refl scan)
    · rw [if_neg live] at round
      exact goesOn round (Alike.refl scan)
  · exact goesOn round (Alike.refl scan)

theorem ends_goesOn_iff {scan next : LocationScan} {c : Char} {rest text : Text} {info : LocationInfo}
    (round : GoesOn (scan.charTurn c rest) next text) :
    Ends turn (scan, some (c :: rest)) info <-> Ends turn (next, some text) info := by
  rcases round with goesOn | ⟨ended, rfl⟩
  · exact Loop.ends_iff_of_goOn goesOn
  · have returned : turn (next, none) = .returns next.locInfo := rfl
    have returnedToo : turn (next, some []) = .returns next.locInfo := rfl
    rw [Loop.ends_iff_of_returns returnedToo, ← Loop.ends_iff_of_returns returned]
    exact Loop.ends_iff_of_goOn ended

theorem goOn_inj {scan scan' : LocationScan} {left left' : Option Text}
    (same : (.goOn (scan, left) : Turn Spot LocationInfo) = .goOn (scan', left')) :
    scan = scan' ∧ left = left' := by
  injection same with same
  exact Prod.mk.inj same

/-! ## The same round without the comments -/

/-- A keyword is found without the comments where it is found with them. -/
theorem word_bare_iff {c : Char} {word : Text} {rest : List Marked}
    (delimited : Delimited (⟨c, false⟩ :: rest))
    (plain : forall d, d ∈ (c :: word).dropLast -> separates d = false) (noHash : '#' ∉ word) :
    word <+: bare rest <-> word <+: full rest := by
  constructor
  · intro found
    by_contra differs
    exact differs_bare delimited plain differs found
  · intro found
    rcases (outside_of_code delimited).code_of_word noHash found with ⟨signs, rfl⟩
    rw [bare_append, bare_markAll_false]
    exact List.prefix_append _ _

theorem location_bare_iff {c : Char} {rest : List Marked} (delimited : Delimited (⟨c, false⟩ :: rest))
    (isLocation : c = 'l' ∨ c = 'L') :
    "ocation ".toList <+: bare rest <-> "ocation ".toList <+: full rest := by
  apply word_bare_iff delimited _ (by decide)
  rcases isLocation with rfl | rfl <;> exact List.all_iff_forall_prop.mp (by decide)

theorem readsValue_bare_iff {scan : LocationScan} {c : Char} {rest : List Marked}
    (delimited : Delimited (⟨c, false⟩ :: rest)) :
    scan.ReadsValue c (bare rest) <-> scan.ReadsValue c (full rest) := by
  refine or_congr Iff.rfl (or_congr ?_ ?_)
  · refine and_congr_right (fun isRoot => and_congr_right (fun _ => ?_))
    apply word_bare_iff delimited _ (by decide)
    rcases isRoot with rfl | rfl <;> exact List.all_iff_forall_prop.mp (by decide)
  · refine and_congr_right (fun isIndex => and_congr_right (fun _ => ?_))
    apply word_bare_iff delimited _ (by decide)
    rcases isIndex with rfl | rfl <;> exact List.all_iff_forall_prop.mp (by decide)

theorem keywordRest_le (c : Char) (rest : Text) : keywordRest c rest ≤ rest.length := by
  rw [keywordRest]
  split
  · rename_i found
    exact found.2.length_le
  · exact Nat.zero_le _

/-- Behind a keyword the same is left. -/
theorem drop_bare {c : Char} {rest : List Marked} (delimited : Delimited (⟨c, false⟩ :: rest)) :
    (bare rest).drop (keywordRest c (bare rest)) = bare (rest.drop (keywordRest c (full rest))) := by
  by_cases found : (c = 'l' ∨ c = 'L') ∧ "ocation ".toList <+: full rest
  · have foundToo := (location_bare_iff delimited found.1).mpr found.2
    rw [keywordRest, keywordRest, if_pos found, if_pos ⟨found.1, foundToo⟩]
    rcases (outside_of_code delimited).code_of_word (by decide) found.2 with ⟨signs, rfl⟩
    rw [bare_append, bare_markAll_false]
    rfl
  · have notFound : ¬((c = 'l' ∨ c = 'L') ∧ "ocation ".toList <+: bare rest) :=
      fun both => found ⟨both.1, (location_bare_iff delimited both.1).mp both.2⟩
    rw [keywordRest, keywordRest, if_neg found, if_neg notFound, List.drop_zero, List.drop_zero]

/-- White space does nothing. -/
theorem ends_dropWhile_isspace (scan : LocationScan) (text : Text) (info : LocationInfo) :
    Ends turn (scan, some (text.dropWhile isspace)) info <-> Ends turn (scan, some text) info := by
  induction text with
  | nil => exact Iff.rfl
  | cons c rest inductionHypothesis =>
      by_cases space : isspace c = true
      · rw [List.dropWhile_cons_of_pos space, inductionHypothesis]
        have idle : scan.charTurn c rest = .goOn (scan, some rest) := by
          have other : forall letter : Char, isspace letter = false -> c ≠ letter := by
            rintro letter isLetter rfl
            rw [isLetter] at space
            cases space
          rw [charTurn, if_neg (other _ rfl), if_neg (other _ rfl), if_neg (other _ rfl),
            if_neg (by simp [other 'l' rfl, other 'L' rfl]), if_neg (by simp [other 'r' rfl, other 'R' rfl]),
            if_neg (by simp [other 'i' rfl, other 'I' rfl])]
        exact (Loop.ends_iff_of_goOn idle).symm
      · rw [List.dropWhile_cons_of_neg space]

/-! ## The same value without the comments -/

theorem goesOn_resume {scan next : LocationScan} {text text' : Text}
    (round : GoesOn (.goOn (scan, resume text)) next text') : scan = next ∧ text = text' := by
  rw [resume] at round
  split at round
  · rename_i empty
    rcases round with goesOn | ⟨ended, nothing⟩
    · cases (goOn_inj goesOn).2
    · exact ⟨(goOn_inj ended).1, empty.trans nothing.symm⟩
  · rcases round with goesOn | ⟨ended, _⟩
    · exact ⟨(goOn_inj goesOn).1, Option.some.inj (goOn_inj goesOn).2⟩
    · cases (goOn_inj ended).2

theorem goesOn_some {scan next : LocationScan} {text text' : Text}
    (round : GoesOn (.goOn (scan, some text)) next text') : scan = next ∧ text = text' := by
  rcases round with goesOn | ⟨ended, _⟩
  · exact ⟨(goOn_inj goesOn).1, Option.some.inj (goOn_inj goesOn).2⟩
  · cases (goOn_inj ended).2

/-- A path and the name of its handler. -/
theorem pathTurn_bare {scan next : LocationScan} {span rest : List Marked}
    (valid : scan.validLocation = true) (code : Code span) (named : AtCode rest)
    (round : GoesOn (scan.pathTurn (full (span ++ rest))) next (full rest)) :
    GoesOn (scan.pathTurn (bare (span ++ rest))) next (bare rest) := by
  generalize whole : span ++ rest = signs at round ⊢
  rw [pathTurn, if_pos valid, dropWhile_full] at round
  split at round
  · rcases round with goesOn | ⟨ended, _⟩
    · cases goesOn
    · cases ended
  · rename_i spaced
    dsimp only at round
    rw [dropWhile_full, dropWhile_full] at round
    rcases goesOn_resume round with ⟨rfl, same⟩
    have parts : span ++ rest = (within inPath signs ++ (within isspace (beyond inPath signs) ++
        within Char.isAlphanum (beyond isspace (beyond inPath signs)))) ++
        beyond Char.isAlphanum (beyond isspace (beyond inPath signs)) := by
      rw [whole, List.append_assoc, List.append_assoc, within_append_beyond, within_append_beyond,
        within_append_beyond]
    rcases span_of_full parts same.symm with ⟨spanIs, restIs⟩
    rw [spanIs, Code.append_iff, Code.append_iff] at code
    rcases code with ⟨pathCode, spaceCode, nameCode⟩
    rw [restIs] at named
    have atName := atCode_of_beyond nameCode named
    have atSpace := atCode_of_beyond spaceCode atName
    rw [pathTurn, if_pos valid, (spans_bare pathCode atSpace).2,
      if_neg (bare_ne_nil atSpace (full_ne_nil.mp spaced))]
    dsimp only
    rw [(spans_bare pathCode atSpace).1, (spans_bare spaceCode atName).2, (spans_bare nameCode named).1,
      (spans_bare nameCode named).2, takeWhile_full, takeWhile_full, restIs, resume]
    split
    · rename_i empty
      exact Or.inr ⟨rfl, empty⟩
    · exact Or.inl rfl

/-- The directory behind the keyword. -/
theorem rootTurn_bare {scan next : LocationScan} {span rest : List Marked} (live : scan.Live)
    (outside : Outside (span ++ rest)) (code : Code span) (begins : "oot ".toList <+: full (span ++ rest))
    (round : GoesOn (scan.rootTurn (full (span ++ rest))) next (full rest)) :
    GoesOn (scan.rootTurn (bare (span ++ rest))) next (bare rest) := by
  rcases outside.code_of_word (by decide) begins with ⟨signs, whole⟩
  rw [whole] at round outside ⊢
  replace outside := outside.behind (code_markAll _)
  rw [rootTurn, keywordTurn, if_pos live, full_append, full_markAll, if_pos (List.prefix_append _ _),
    List.drop_left, dropWhile_full, dirTurn, dropWhile_full] at round
  split at round
  · rcases round with goesOn | ⟨ended, _⟩
    · cases goesOn
    · cases ended
  · rename_i ended
    rcases goesOn_some round with ⟨rfl, same⟩
    have parts : span ++ rest = (markAll false "oot ".toList ++ (within beforeDir signs ++
        within inDir (beyond beforeDir signs))) ++ beyond inDir (beyond beforeDir signs) := by
      rw [whole, List.append_assoc, List.append_assoc, within_append_beyond, within_append_beyond]
    rcases span_of_full parts same.symm with ⟨spanIs, restIs⟩
    rw [spanIs, Code.append_iff, Code.append_iff] at code
    rcases code with ⟨_, skipCode, dirCode⟩
    have atEnd := (outside.afterSpan skipCode).atCode_of_hash dirCode rfl
    have atDir := atCode_of_beyond dirCode atEnd
    rw [rootTurn, keywordTurn, if_pos live, bare_append, bare_markAll_false,
      if_pos (List.prefix_append _ _), List.drop_left, (spans_bare skipCode atDir).2, dirTurn,
      (spans_bare dirCode atEnd).2, if_neg (bare_ne_nil atEnd (full_ne_nil.mp ended)),
      (spans_bare dirCode atEnd).1, takeWhile_full, restIs]
    exact Or.inl rfl

/-- The index behind the keyword, with the character that ends it. -/
theorem indexTurn_bare {scan next : LocationScan} {span rest : List Marked} (live : scan.Live)
    (outside : Outside (span ++ rest)) (code : Code span)
    (begins : "ndex ".toList <+: full (span ++ rest))
    (round : GoesOn (scan.indexTurn (full (span ++ rest))) next (full rest)) :
    GoesOn (scan.indexTurn (bare (span ++ rest))) next (bare rest) := by
  rcases outside.code_of_word (by decide) begins with ⟨signs, whole⟩
  rw [whole] at round ⊢
  rw [indexTurn, keywordTurn, if_pos live, full_append, full_markAll, if_pos (List.prefix_append _ _),
    List.drop_left, dropWhile_full, nameTurn, dropWhile_full] at round
  split at round
  · rcases round with goesOn | ⟨ended, _⟩
    · cases goesOn
    · cases ended
  · rename_i ended
    rcases goesOn_some round with ⟨rfl, same⟩
    cases behind : beyond inIndex (beyond isspace signs) with
    | nil =>
        rw [behind] at ended
        exact absurd rfl ended
    | cons ender after =>
        rw [behind] at same
        have parts : span ++ rest = (markAll false "ndex ".toList ++ (within isspace signs ++
            (within inIndex (beyond isspace signs) ++ [ender]))) ++ after := by
          rw [whole, List.append_assoc, List.append_assoc, List.append_assoc, List.singleton_append,
            ← behind, within_append_beyond, within_append_beyond]
        rcases span_of_full parts same.symm with ⟨spanIs, restIs⟩
        rw [spanIs, Code.append_iff, Code.append_iff, Code.append_iff] at code
        rcases code with ⟨_, spaceCode, nameCode, enderCode⟩
        have atEnd : AtCode (beyond inIndex (beyond isspace signs)) := by
          rw [behind]
          rintro sign isHead
          exact enderCode sign (List.mem_singleton.mpr (Option.some.inj isHead).symm)
        have atName := atCode_of_beyond nameCode atEnd
        rcases ender with ⟨c, inComment⟩
        obtain rfl : inComment = false := enderCode _ (List.mem_singleton.mpr rfl)
        rw [indexTurn, keywordTurn, if_pos live, bare_append, bare_markAll_false,
          if_pos (List.prefix_append _ _), List.drop_left, (spans_bare spaceCode atName).2,
          (spans_bare spaceCode atName).1, nameTurn, (spans_bare nameCode atEnd).2, behind, bare_code,
          if_neg (List.cons_ne_nil _ _), (spans_bare nameCode atEnd).1, takeWhile_full, takeWhile_full, restIs]
        exact Or.inl rfl

theorem not_goesOn_of_hangs {next : LocationScan} {text : Text} : ¬ GoesOn .hangs next text := by
  rintro (goesOn | ⟨ended, _⟩)
  · cases goesOn
  · cases ended

/-- A path in front of a comment has no handler, with the comments and without them. -/
theorem pathTurn_bare_comment {scan next : LocationScan} {span rest : List Marked}
    (valid : scan.validLocation = true) (outside : Outside (span ++ rest)) (code : Code span)
    (comment : ¬ AtCode rest)
    (nameless : ((bare rest).dropWhile isspace).head?.any Char.isAlphanum = false)
    (round : GoesOn (scan.pathTurn (full (span ++ rest))) next (full rest)) :
    GoesOn (scan.pathTurn (bare (span ++ rest))) next ((bare rest).dropWhile isspace) := by
  generalize whole : span ++ rest = signs at round outside ⊢
  rw [pathTurn, if_pos valid, dropWhile_full] at round
  split at round
  · exact absurd round not_goesOn_of_hangs
  · rename_i spaced
    dsimp only at round
    rw [dropWhile_full, dropWhile_full] at round
    rcases goesOn_resume round with ⟨rfl, same⟩
    have parts : span ++ rest = (within inPath signs ++ (within isspace (beyond inPath signs) ++
        within Char.isAlphanum (beyond isspace (beyond inPath signs)))) ++
        beyond Char.isAlphanum (beyond isspace (beyond inPath signs)) := by
      rw [whole, List.append_assoc, List.append_assoc, within_append_beyond, within_append_beyond,
        within_append_beyond]
    rcases span_of_full parts same.symm with ⟨spanIs, restIs⟩
    rw [spanIs, Code.append_iff, Code.append_iff] at code
    rcases code with ⟨pathCode, spaceCode, nameCode⟩
    -- Behind a name there would be no comment.
    have noName : within Char.isAlphanum (beyond isspace (beyond inPath signs)) = [] := by
      by_contra named
      have atEnd := ((outside.afterSpan pathCode).afterSpan spaceCode).atCode_of_plain nameCode
        (fun c => separates_alphanum) named
      rw [← restIs] at atEnd
      exact comment atEnd
    have restIsToo : beyond isspace (beyond inPath signs) = rest := by
      rw [restIs]
      conv_lhs => rw [← within_append_beyond Char.isAlphanum (beyond isspace (beyond inPath signs)), noName,
        List.nil_append]
    have atSpace := outside.atCode_of_hash pathCode rfl
    have behindPath := spans_bare pathCode atSpace
    have spaces : bare (beyond inPath signs) = full (within isspace (beyond inPath signs)) ++ bare rest := by
      conv_lhs => rw [← within_append_beyond isspace (beyond inPath signs), restIsToo, bare_append,
        bare_of_code spaceCode]
    have skipped : (bare (beyond inPath signs)).dropWhile isspace = (bare rest).dropWhile isspace := by
      rw [spaces, List.dropWhile_append_of_pos]
      intro c member
      rw [← takeWhile_full] at member
      exact List.mem_takeWhile_imp member
    have nothing : ((bare rest).dropWhile isspace).takeWhile Char.isAlphanum = [] ∧
        ((bare rest).dropWhile isspace).dropWhile Char.isAlphanum = (bare rest).dropWhile isspace := by
      cases left : (bare rest).dropWhile isspace with
      | nil => exact ⟨rfl, rfl⟩
      | cons c others =>
          rw [left] at nameless
          have fails : c.isAlphanum = false := nameless
          exact ⟨List.takeWhile_cons_of_neg (by simp [fails]), List.dropWhile_cons_of_neg (by simp [fails])⟩
    rw [pathTurn, if_pos valid, behindPath.2, if_neg (bare_ne_nil atSpace (full_ne_nil.mp spaced))]
    dsimp only
    rw [behindPath.1, skipped, nothing.1, nothing.2, takeWhile_full, takeWhile_full, noName]
    exact goesOn_of_resume _

theorem charTurn_value_bare {scan next : LocationScan} {c : Char} {span rest : List Marked}
    (outside : Outside (span ++ rest)) (reads : scan.ReadsValue c (full (span ++ rest)))
    (code : Code span) (named : c = '/' -> AtCode rest)
    (round : GoesOn (scan.charTurn c (full (span ++ rest))) next (full rest)) :
    GoesOn (scan.charTurn c (bare (span ++ rest))) next (bare rest) := by
  rcases reads with ⟨rfl, valid⟩ | ⟨isRoot, live, begins⟩ | ⟨isIndex, live, begins⟩
  · exact pathTurn_bare valid code (named rfl) round
  · rcases isRoot with rfl | rfl
    · exact rootTurn_bare live outside code begins round
    · exact rootTurn_bare live outside code begins round
  · rcases isIndex with rfl | rfl
    · exact indexTurn_bare live outside code begins round
    · exact indexTurn_bare live outside code begins round

section Alike

variable {scan scan' next next' : LocationScan} {rest text : Text}

theorem pathTurn_alike (alike : Alike scan scan') (valid : scan.validLocation = true)
    (validToo : scan'.validLocation = true) (round : GoesOn (scan.pathTurn rest) next text)
    (roundToo : GoesOn (scan'.pathTurn rest) next' text) : Alike next next' := by
  rw [pathTurn, if_pos valid] at round
  rw [pathTurn, if_pos validToo] at roundToo
  split at round
  · exact absurd round not_goesOn_of_hangs
  · rename_i spaced
    rw [if_neg spaced] at roundToo
    rw [← (goesOn_resume round).1, ← (goesOn_resume roundToo).1]
    exact ⟨rfl, alike.indexName, by simp only [atLocation, alike.locInfo]⟩

theorem rootTurn_alike (alike : Alike scan scan') (live : scan.Live) (liveToo : scan'.Live)
    (begins : "oot ".toList <+: rest) (round : GoesOn (scan.rootTurn rest) next text)
    (roundToo : GoesOn (scan'.rootTurn rest) next' text) : Alike next next' := by
  rw [rootTurn, keywordTurn, if_pos live, if_pos begins, dirTurn] at round
  rw [rootTurn, keywordTurn, if_pos liveToo, if_pos begins, dirTurn] at roundToo
  split at round
  · exact absurd round not_goesOn_of_hangs
  · rename_i ended
    rw [if_neg ended] at roundToo
    rw [← (goesOn_some round).1, ← (goesOn_some roundToo).1]
    exact ⟨alike.pathName, alike.indexName, by simp only [atRoot, alike.locInfo, alike.pathName]⟩

theorem indexTurn_alike (alike : Alike scan scan') (live : scan.Live) (liveToo : scan'.Live)
    (begins : "ndex ".toList <+: rest) (round : GoesOn (scan.indexTurn rest) next text)
    (roundToo : GoesOn (scan'.indexTurn rest) next' text) : Alike next next' := by
  rw [indexTurn, keywordTurn, if_pos live, if_pos begins, nameTurn] at round
  rw [indexTurn, keywordTurn, if_pos liveToo, if_pos begins, nameTurn, alike.indexName] at roundToo
  split at round
  · exact absurd round not_goesOn_of_hangs
  · rename_i ended
    rw [if_neg ended] at roundToo
    rw [← (goesOn_some round).1, ← (goesOn_some roundToo).1]
    exact ⟨alike.pathName, rfl, by simp only [atIndex, alike.locInfo, alike.pathName]⟩

/-- What two scans read at the same place is entered under the same path. -/
theorem charTurn_value_alike {c : Char} (alike : Alike scan scan') (reads : scan.ReadsValue c rest)
    (readsToo : scan'.ReadsValue c rest) (round : GoesOn (scan.charTurn c rest) next text)
    (roundToo : GoesOn (scan'.charTurn c rest) next' text) : Alike next next' := by
  rcases reads with ⟨rfl, valid⟩ | ⟨isRoot, live, begins⟩ | ⟨isIndex, live, begins⟩
  · have validToo : scan'.validLocation = true := by simpa [ReadsValue] using readsToo
    exact pathTurn_alike alike valid validToo round roundToo
  · rcases isRoot with rfl | rfl
    all_goals
      have both : scan'.Live ∧ "oot ".toList <+: rest := by simpa [ReadsValue] using readsToo
      exact rootTurn_alike alike live both.1 begins round roundToo
  · rcases isIndex with rfl | rfl
    all_goals
      have both : scan'.Live ∧ "ndex ".toList <+: rest := by simpa [ReadsValue] using readsToo
      exact indexTurn_alike alike live both.1 begins round roundToo

end Alike

/-- What is read forever is read forever without the comments. -/
theorem charTurn_hangs_bare {scan : LocationScan} {c : Char} {rest : List Marked}
    (delimited : Delimited (⟨c, false⟩ :: rest)) (round : scan.charTurn c (full rest) = .hangs) :
    scan.charTurn c (bare rest) = .hangs := by
  have outside := outside_of_code delimited
  -- What follows the keyword consists of what is skipped, which is no comment, and the value.
  have remains : forall {skipped inValue : Char -> Bool} {signs : List Marked}, Outside signs ->
      skipped '#' = false -> (forall d, d ∈ (full signs).dropWhile skipped -> inValue d = true) ->
      forall d, d ∈ (bare signs).dropWhile skipped -> inValue d = true := by
    intro skipped inValue signs outside stopsAtHash endless d member
    have skipCode := outside.code_within stopsAtHash
    have parts : bare signs = full (within skipped signs) ++ bare (beyond skipped signs) := by
      conv_lhs => rw [← within_append_beyond skipped signs, bare_append, bare_of_code skipCode]
    have passes : forall e, e ∈ full (within skipped signs) -> skipped e = true := by
      intro e found
      rw [← takeWhile_full] at found
      exact List.mem_takeWhile_imp found
    rw [parts, List.dropWhile_append_of_pos passes] at member
    apply endless
    rw [dropWhile_full]
    exact mem_full_of_mem_bare ((List.dropWhile_suffix _).mem member)
  rw [charTurn_hangs_iff] at round ⊢
  rcases round with ⟨isSlash, valid, spaceless⟩ | ⟨isRoot, live, after, split, endless⟩ |
    ⟨isIndex, live, after, split, endless⟩
  · exact Or.inl ⟨isSlash, valid, fun d member => spaceless d (mem_full_of_mem_bare member)⟩
  · rcases outside.code_of_word (by decide) ⟨after, split.symm⟩ with ⟨signs, rfl⟩
    rw [full_append, full_markAll] at split
    rw [bare_append, bare_markAll_false]
    refine Or.inr (Or.inl ⟨isRoot, live, bare signs, rfl, ?_⟩)
    rw [← List.append_cancel_left split] at endless
    exact remains (outside.behind (code_markAll _)) rfl endless
  · rcases outside.code_of_word (by decide) ⟨after, split.symm⟩ with ⟨signs, rfl⟩
    rw [full_append, full_markAll] at split
    rw [bare_append, bare_markAll_false]
    refine Or.inr (Or.inr ⟨isIndex, live, bare signs, rfl, ?_⟩)
    rw [← List.append_cancel_left split] at endless
    exact remains (outside.behind (code_markAll _)) rfl endless

/-! ## The whole scan -/

/-- At the end of the text the scan returns what it has. -/
theorem ends_iff_of_nil (scan : LocationScan) (heard : Option Heard) (info : LocationInfo) :
    Ends turn (scan, heard.map (fun _ => [])) info <-> info = scan.locInfo := by
  cases heard with
  | none => exact Loop.ends_iff_of_returns rfl
  | some known => exact Loop.ends_iff_of_returns rfl

/-- What has been heard is what the scan has, unless the scan has come to its end. -/
def Hears (scan : LocationScan) (heard : Option Heard) : Prop :=
  forall known, heard = some known -> scan.heard = known

theorem readsValue_of_begins {scan : LocationScan} {heard : Option Heard} {c : Char} {rest : Text}
    (hears : Hears scan heard) (value : begins heard c rest = true) :
    scan.ReadsValue c rest ∧ heard = some scan.heard := by
  cases heard with
  | none => cases value
  | some known =>
      have same := hears known rfl
      subst same
      exact ⟨(readsValue_iff scan c rest).mpr (of_decide_eq_true value), rfl⟩

/-- A round that reads no value, of a scan that may have come to its end. -/
theorem plain_round {scan : LocationScan} {heard : Option Heard} {c : Char} {rest : Text}
    (hears : Hears scan heard) (noValue : begins heard c rest = false) :
    Exists fun next : LocationScan => Alike scan next ∧
      Hears next (heard.bind (fun heard => heard.after c rest)) ∧ forall info,
        Ends turn (scan, heard.map (fun _ => c :: rest)) info <->
        Ends turn (next, (heard.bind (fun heard => heard.after c rest)).map
          (fun _ => rest.drop (keywordRest c rest))) info := by
  cases heard with
  | none => exact ⟨scan, Alike.refl scan, fun _ none => (by cases none), fun _ => Iff.rfl⟩
  | some known =>
      have same := hears known rfl
      subst same
      have nothing : ¬ scan.ReadsValue c rest :=
        mt (readsValue_iff scan c rest).mp (of_decide_eq_false noValue)
      rcases charTurn_after nothing with ⟨next, round, hearsNext⟩
      exact ⟨next, charTurn_plain nothing round, hearsNext, fun _ => Loop.ends_iff_of_goOn round⟩

/-- Two scans that read a value at the same place both read it to its end, or neither. -/
theorem charTurn_hangs_congr {scan scan' : LocationScan} {c : Char} {rest : Text}
    (readsToo : scan'.ReadsValue c rest) (round : scan.charTurn c rest = .hangs) :
    scan'.charTurn c rest = .hangs := by
  rw [charTurn_hangs_iff] at round ⊢
  rcases round with ⟨rfl, _, spaceless⟩ | ⟨isRoot, _, endless⟩ | ⟨isIndex, _, endless⟩
  · have valid : scan'.validLocation = true := by simpa [ReadsValue] using readsToo
    exact Or.inl ⟨rfl, valid, spaceless⟩
  · refine Or.inr (Or.inl ⟨isRoot, ?_, endless⟩)
    rcases isRoot with rfl | rfl
    all_goals
      have both : scan'.Live ∧ "oot ".toList <+: rest := by simpa [ReadsValue] using readsToo
      exact both.1
  · refine Or.inr (Or.inr ⟨isIndex, ?_, endless⟩)
    rcases isIndex with rfl | rfl
    all_goals
      have both : scan'.Live ∧ "ndex ".toList <+: rest := by simpa [ReadsValue] using readsToo
      exact both.1

theorem atCode_of_head {signs : List Marked} (code : signs.head?.any Marked.inComment = false) :
    AtCode signs := by
  intro sign isHead
  rwa [isHead] at code

/-- What a value outside the comments is without them, and what the scan goes on with. -/
theorem value_round {scan next : LocationScan} {c : Char} {rest : List Marked}
    (delimited : Delimited (⟨c, false⟩ :: rest)) (reads : scan.ReadsValue c (full rest))
    (outside : ValueOutside c rest)
    (round : GoesOn (scan.charTurn c (full rest)) next (full (behindValue c rest))) (info : LocationInfo) :
    Ends turn (scan, some (c :: bare rest)) info <->
      Ends turn (next, some (bare (behindValue c rest))) info := by
  have parts : rest.take (valueLength c rest) ++ behindValue c rest = rest := by
    have left := List.suffix_iff_eq_drop.mp (behindValue_suffix c rest)
    rw [valueLength]
    conv_lhs => arg 2; rw [left]
    exact List.take_append_drop _ _
  rcases outside with ⟨code, named⟩
  have unchanged := outside_of_code delimited
  rw [← parts] at reads unchanged
  have roundParts : GoesOn (scan.charTurn c (full (rest.take (valueLength c rest) ++ behindValue c rest)))
      next (full (behindValue c rest)) := by rwa [parts]
  by_cases here : c = '/' -> AtCode (behindValue c rest)
  · have roundBare := charTurn_value_bare unchanged reads code here roundParts
    rw [parts] at roundBare
    exact ends_goesOn_iff roundBare
  · rw [Classical.not_imp] at here
    rcases here with ⟨rfl, comment⟩
    have valid : scan.validLocation = true := by simpa [ReadsValue] using reads
    have nameless := (named rfl).resolve_left (fun code => comment (atCode_of_head code))
    have roundBare := pathTurn_bare_comment valid unchanged code comment nameless roundParts
    rw [parts] at roundBare
    change GoesOn (scan.charTurn '/' (bare rest)) _ _ at roundBare
    exact (ends_goesOn_iff roundBare).trans (ends_dropWhile_isspace _ _ _)

theorem mapsOutside_drop {heard heard' : Option Heard} {rest : List Marked} {skip : Nat}
    (short : skip ≤ rest.length) (outside : MapsOutside rest heard heard' skip) :
    MapsOutside (rest.drop skip) heard heard' 0 := by
  have whole : MapsOutside (rest.take skip ++ rest.drop skip) heard heard' (rest.take skip).length := by
    rwa [List.take_append_drop, List.length_take_of_le short]
  exact mapsOutside_skip whole

/-- With the maps outside the comments, the scan ends with the same maps as without them.
The induction is on the length of what is left, since rounds take several signs. -/
theorem ends_uncommented (count : Nat) {signs : List Marked} (short : signs.length ≤ count)
    {scan scan' : LocationScan} {heard heard' : Option Heard} (outside : MapsOutside signs heard heard' 0)
    (delimited : Delimited signs) (alike : Alike scan scan') (hears : Hears scan heard)
    (hearsToo : Hears scan' heard') (info : LocationInfo) :
    Ends turn (scan, heard.map (fun _ => full signs)) info <->
      Ends turn (scan', heard'.map (fun _ => bare signs)) info := by
  induction count generalizing signs scan scan' heard heard' with
  | zero =>
      obtain rfl := List.eq_nil_of_length_eq_zero (Nat.le_zero.mp short)
      exact (ends_iff_of_nil scan heard info).trans
        (alike.locInfo ▸ (ends_iff_of_nil scan' heard' info).symm)
  | succ count inductionHypothesis =>
      cases signs with
      | nil =>
          exact (ends_iff_of_nil scan heard info).trans
            (alike.locInfo ▸ (ends_iff_of_nil scan' heard' info).symm)
      | cons sign rest =>
          rcases sign with ⟨c, inComment⟩
          have shorter : forall skip, (rest.drop skip).length ≤ count := by
            intro skip
            rw [List.length_drop]
            exact (Nat.sub_le _ _).trans (Nat.le_of_succ_le_succ short)
          have later : forall skip, Delimited (rest.drop skip) := by
            intro skip
            rw [← List.take_append_drop skip rest] at delimited
            exact delimited.tail.suffix
          have keyword := keywordRest_le c (full rest)
          rw [full, List.length_map, ← full] at keyword
          rw [MapsOutside, if_neg (Nat.lt_irrefl 0)] at outside
          cases inComment with
          | true =>
              rw [if_pos rfl] at outside
              rcases outside with ⟨noValue, comments, onward⟩
              rcases plain_round hears noValue with ⟨next, alikeNext, hearsNext, sameEnd⟩
              have nothing : bare rest = bare (rest.drop (keywordRest c (full rest))) := by
                conv_lhs => rw [← List.take_append_drop (keywordRest c (full rest)) rest, bare_append,
                  bare_of_comment comments, List.nil_append]
              rw [full_cons, sameEnd, bare_comment, nothing, drop_full]
              exact inductionHypothesis (shorter _) (mapsOutside_drop keyword onward) (later _)
                (alikeNext.symm.trans alike) hearsNext hearsToo
          | false =>
              rw [if_neg Bool.false_ne_true] at outside
              rcases outside with ⟨sameBegins, outside⟩
              by_cases value : begins heard c (full rest) = true
              · rw [if_pos value] at outside
                rcases outside with ⟨valueOutside, onward⟩
                rcases readsValue_of_begins hears value with ⟨reads, rfl⟩
                rcases readsValue_of_begins hearsToo (sameBegins.trans value) with ⟨readsBare, rfl⟩
                have readsToo := (readsValue_bare_iff delimited).mp readsBare
                change Ends turn (scan, some (c :: full rest)) info <->
                  Ends turn (scan', some (c :: bare rest)) info
                rcases charTurn_value reads with endless | ⟨next, round, hearsNext⟩
                · have endlessToo := charTurn_hangs_congr readsToo endless
                  have endlessBare := charTurn_hangs_bare delimited endlessToo
                  exact iff_of_false (fun ends => Loop.not_hangs_of_ends ends (.here _) endless)
                    (fun ends => Loop.not_hangs_of_ends ends (.here _) endlessBare)
                rcases charTurn_value readsToo with endless | ⟨nextToo, roundToo, hearsNextToo⟩
                · rw [charTurn_hangs_congr reads endless] at round
                  exact absurd round not_goesOn_of_hangs
                have left : behindValue c rest = rest.drop (valueLength c rest) :=
                  List.suffix_iff_eq_drop.mp (behindValue_suffix c rest)
                rw [ends_goesOn_iff round, value_round delimited readsToo valueOutside roundToo, left]
                exact inductionHypothesis (shorter _) (mapsOutside_drop (Nat.sub_le _ _) onward) (later _)
                  (charTurn_value_alike alike reads readsToo round roundToo)
                  (fun _ same => hearsNext.trans (Option.some.inj same))
                  (fun _ same => hearsNextToo.trans (Option.some.inj same))
              · rw [if_neg value] at outside
                rw [Bool.not_eq_true] at value
                rcases plain_round hears value with ⟨next, alikeNext, hearsNext, sameEnd⟩
                rcases plain_round hearsToo (sameBegins.trans value) with
                  ⟨nextToo, alikeToo, hearsNextToo, sameEndToo⟩
                rw [full_cons, sameEnd, bare_code, sameEndToo, drop_bare delimited, drop_full]
                exact inductionHypothesis (shorter _) (mapsOutside_drop keyword outside) (later _)
                  ((alikeNext.symm.trans alike).trans alikeToo) hearsNext hearsNextToo

end LocationScan

/-- What stands outside the comments of a text is the same without them: its port and the
three maps of its locations. -/
theorem extracted_uncommented {text : Text} (ports : PortsOutside (marked text))
    (maps : MapsOutside (marked text) (some .nothing) (some .nothing) 0) :
    (forall limit, text.length < limit ->
      extractPort limit (uncommented text) = extractPort limit text) ∧
    forall info, (Exists fun limit : Nat => extractLocation limit text = some info) <->
      Exists fun limit : Nat => extractLocation limit (uncommented text) = some info := by
  refine ⟨fun limit enough => extractPort_uncommented ports enough, fun info => ?_⟩
  rw [LocationScan.extractLocation_ends_iff, LocationScan.extractLocation_ends_iff, uncommented]
  have start : LocationScan.Hears .initial (some .nothing) := fun _ same => Option.some.inj same
  have same := LocationScan.ends_uncommented _ (Nat.le_refl _) maps (delimited_marked text)
    (LocationScan.Alike.refl .initial) start start info
  rwa [full_marked] at same

/-- Comments with words of the scan in them, one in place of a handler's name. -/
def commentedBlock : Text :=
  "location /x #\x7b\n\x7b root /y; \x7d # l\n".toList

theorem commentedBlock_undisturbed :
    (forall limit, commentedBlock.length < limit ->
      extractPort limit (uncommented commentedBlock) = extractPort limit commentedBlock) ∧
    forall info, (Exists fun limit : Nat => extractLocation limit commentedBlock = some info) <->
      Exists fun limit : Nat => extractLocation limit (uncommented commentedBlock) = some info :=
  extracted_uncommented (by decide +kernel) (by decide +kernel)

/-- The parser accepts both texts.  The port is read from the comment of the first, and the
root from that of the second. -/
theorem commentedDirectives_areRead :
    (parse "# listen 8080\nlisten 80;\n".toList).toOption.map Prod.fst = some true ∧
      extractPort 40 "# listen 8080\nlisten 80;\n".toList = some (.ok 8080) ∧
      extractPort 40 (uncommented "# listen 8080\nlisten 80;\n".toList) = some (.ok 80) ∧
    (parse "location /x E \x7b\n# root /y;\n\x7d\n".toList).toOption.map Prod.fst = some true ∧
      ¬ forall info,
        (Exists fun limit : Nat =>
          extractLocation limit "location /x E \x7b\n# root /y;\n\x7d\n".toList = some info) <->
        Exists fun limit : Nat =>
          extractLocation limit (uncommented "location /x E \x7b\n# root /y;\n\x7d\n".toList) =
            some info := by
  refine ⟨by decide, by decide, by decide +kernel, by decide, fun same => ?_⟩
  let noRoot : LocationInfo := { LocationInfo.empty with
    pathToHandler := SortedMap.empty.assign "/x".toList "E".toList }
  let withRoot : LocationInfo := { noRoot with
    pathToRoot := SortedMap.empty.assign "/x".toList "/y".toList }
  have isRead : extractLocation 40 "location /x E \x7b\n# root /y;\n\x7d\n".toList = some withRoot := by
    decide
  have isReadToo : extractLocation 40
      (uncommented "location /x E \x7b\n# root /y;\n\x7d\n".toList) = some noRoot := by
    decide +kernel
  have ends := (LocationScan.extractLocation_ends_iff _ _).mp ((same withRoot).mp ⟨40, isRead⟩)
  have sameMaps := ends.unique ((LocationScan.extractLocation_ends_iff _ _).mp ⟨40, isReadToo⟩)
  exact absurd sameMaps (by decide)

end Config
end Webserver
