import Webserver.Config.ExtractLocation

namespace Webserver
namespace Config

/-!
# Steps of `ExtractLocation`

`Gives` says what the loop makes of some unread text.  The lookahead for a
keyword fails near the end of the file, and then the loop ends before it has
seen the last characters.  `Gives` therefore also says that nothing is added to
the maps in a text too short for a keyword and its argument, as long as the loop
is not between the keyword of a location and its path.
-/

namespace LocationScan

/-- With the given text unread, the loop ends with the given maps once its limits
are large enough, and they are the present ones if the text is short. -/
def Gives (text : Text) (scan : LocationScan) (info : LocationInfo) : Prop :=
  (Exists fun bound : Nat => forall (limit rounds : Nat) (past : Text),
    bound ≤ limit -> bound ≤ rounds -> run limit rounds scan ⟨past, text, true⟩ = some info) ∧
  (scan.validLocation = false -> text.length < 8 -> info = scan.locInfo)

/-- The loop comes from one text and state to another. -/
def Leads (text : Text) (scan : LocationScan) (text' : Text) (scan' : LocationScan) : Prop :=
  forall info : LocationInfo, Gives text' scan' info -> Gives text scan info

theorem Leads.refl (text : Text) (scan : LocationScan) : Leads text scan text scan :=
  fun _ gives => gives

theorem Leads.trans {first second third : Text} {start middle final : LocationScan}
    (begins : Leads first start second middle) (ends : Leads second middle third final) :
    Leads first start third final :=
  fun info gives => begins info (ends info gives)

theorem gives_nil (scan : LocationScan) : Gives [] scan scan.locInfo := by
  refine ⟨⟨1, fun limit rounds past _ enough => ?_⟩, fun _ _ => rfl⟩
  cases rounds with
  | zero => cases enough
  | succ rounds => rfl

/-- One round of the loop that leaves the stream good. -/
theorem gives_of_round {c : Char} {rest rest' : Text} {scan scan' : LocationScan}
    {info : LocationInfo}
    (round : Exists fun bound : Nat => forall (limit : Nat) (past : Text), bound ≤ limit ->
      Exists fun past' : Text =>
        readChar limit scan c ⟨c :: past, rest, true⟩ = some (scan', ⟨past', rest', true⟩))
    (gives : Gives rest' scan' info)
    (short : scan.validLocation = false -> (c :: rest).length < 8 -> info = scan.locInfo) :
    Gives (c :: rest) scan info := by
  rcases round with ⟨roundBound, step⟩
  rcases gives with ⟨⟨bound, runs⟩, _⟩
  refine ⟨⟨max roundBound bound + 1, fun limit rounds past limitEnough roundsEnough => ?_⟩, short⟩
  cases rounds with
  | zero => omega
  | succ rounds =>
      rcases step limit past (by omega) with ⟨past', stepIs⟩
      rw [run, InputStream.get_cons]
      simp only [stepIs, reduceCtorEq, if_false, Option.bind_eq_bind, Option.bind_some]
      exact runs limit rounds past' (by omega) (by omega)

/-- A round that looks for a keyword in vain.  It may leave the stream failed. -/
theorem gives_of_lookahead (scan' : LocationScan) {c : Char} {rest keyword : Text}
    {scan : LocationScan} {info : LocationInfo} (differs : ¬keyword <+: rest) (known : eofChar ∉ keyword)
    (size : keyword.length ≤ 8) (settled : scan'.validLocation = false)
    (same : scan'.locInfo = scan.locInfo)
    (round : forall (limit : Nat) (past : Text) (stream : InputStream),
      InputStream.expect keyword ⟨c :: past, rest, true⟩ = (false, stream) ->
        readChar limit scan c ⟨c :: past, rest, true⟩ = some (scan', stream))
    (gives : Gives rest scan' info) : Gives (c :: rest) scan info := by
  rcases gives with ⟨⟨bound, runs⟩, restShort⟩
  have short : scan.validLocation = false -> (c :: rest).length < 8 -> info = scan.locInfo :=
    fun _ isShort => same ▸ restShort settled (Nat.lt_of_succ_lt isShort)
  refine ⟨⟨bound + 2, fun limit rounds past limitEnough roundsEnough => ?_⟩, short⟩
  match rounds, roundsEnough with
  | rounds + 2, roundsEnough =>
      rw [run, InputStream.get_cons]
      rcases InputStream.expect_other (c :: past) rest differs known with restored | ⟨tooShort, past', failed⟩
      · simp only [round limit past _ restored, reduceCtorEq, if_false, Option.bind_eq_bind,
          Option.bind_some]
        exact runs limit (rounds + 1) (c :: past) (by omega) (by omega)
      · simp only [round limit past _ failed, reduceCtorEq, if_false, Option.bind_eq_bind,
          Option.bind_some]
        rw [run, InputStream.get_failed]
        simp only [if_true]
        rw [restShort settled (by omega)]

/-! ## Characters that add nothing -/

/-- The variables that matter to later rounds. -/
def Same (scan scan' : LocationScan) : Prop :=
  scan'.insideBrace = scan.insideBrace ∧ scan'.validLocation = scan.validLocation ∧
  scan'.pathName = scan.pathName ∧ scan'.indexName = scan.indexName ∧
  scan'.locInfo = scan.locInfo

/-- The loop is in a block, and a path has been read. -/
def Live (scan : LocationScan) : Prop := scan.insideBrace = true ∧ scan.pathName ≠ []

/-- A character at which the loop does nothing. -/
def Idle (scan : LocationScan) (c : Char) (rest : Text) : Prop :=
  scan.validLocation = false ∧ c ≠ '{' ∧ c ≠ '}' ∧
  (c = 'l' ∨ c = 'L' -> ¬"ocation ".toList <+: rest) ∧
  (scan.Live -> (c = 'r' ∨ c = 'R' -> ¬"oot ".toList <+: rest) ∧
    (c = 'i' ∨ c = 'I' -> ¬"ndex ".toList <+: rest))

theorem Same.refl (scan : LocationScan) : Same scan scan := ⟨rfl, rfl, rfl, rfl, rfl⟩

theorem Same.trans {first second third : LocationScan} (begins : Same first second)
    (ends : Same second third) : Same first third :=
  ⟨ends.1.trans begins.1, ends.2.1.trans begins.2.1, ends.2.2.1.trans begins.2.2.1,
    ends.2.2.2.1.trans begins.2.2.2.1, ends.2.2.2.2.trans begins.2.2.2.2⟩

/-- A round that does nothing at all. -/
theorem leads_of_nothing {scan : LocationScan} {c : Char} {rest : Text}
    (round : forall (limit : Nat) (stream : InputStream),
      readChar limit scan c stream = some (scan, stream)) :
    Exists fun scan' : LocationScan => Same scan scan' ∧ Leads (c :: rest) scan rest scan' :=
  ⟨scan, Same.refl scan, fun _ gives =>
    gives_of_round ⟨0, fun limit past _ => ⟨c :: past, round limit _⟩⟩ gives
      (fun settled isShort => gives.2 settled (Nat.lt_of_succ_lt isShort))⟩

/-- An idle character is passed. -/
theorem leads_idle {scan : LocationScan} {c : Char} {rest : Text} (idle : scan.Idle c rest) :
    Exists fun scan' : LocationScan => Same scan scan' ∧ Leads (c :: rest) scan rest scan' := by
  rcases idle with ⟨settled, notOpen, notClose, noLocation, noDirective⟩
  by_cases isSlash : c = '/'
  · refine leads_of_nothing (fun limit stream => ?_)
    subst isSlash
    simp [readChar, readPath, settled]
  by_cases isLocation : c = 'l' ∨ c = 'L'
  · refine ⟨scan, Same.refl scan, fun info gives => ?_⟩
    refine gives_of_lookahead scan (noLocation isLocation) (by decide) (by decide) settled rfl
      (fun limit past stream notFound => ?_) gives
    rw [readChar, if_neg notOpen, if_neg notClose, if_neg isSlash, if_pos isLocation, readLocation,
      notFound]
    rfl
  by_cases isRoot : c = 'r' ∨ c = 'R'
  · by_cases live : scan.Live
    · refine ⟨{ scan with dirName := [] }, ⟨rfl, rfl, rfl, rfl, rfl⟩, fun info gives => ?_⟩
      refine gives_of_lookahead { scan with dirName := [] } ((noDirective live).1 isRoot) (by decide) (by decide) settled rfl
        (fun limit past stream notFound => ?_) gives
      have isLive : scan.insideBrace = true ∧ scan.pathName ≠ [] := live
      rw [readChar, if_neg notOpen, if_neg notClose, if_neg isSlash, if_neg isLocation,
        if_pos isRoot, readRoot, if_pos isLive, notFound]
      rfl
    · refine leads_of_nothing (fun limit stream => ?_)
      have notLive : ¬(scan.insideBrace = true ∧ scan.pathName ≠ []) := live
      simp only [readChar, if_neg notOpen, if_neg notClose, if_neg isSlash, if_neg isLocation,
        if_pos isRoot, readRoot, if_neg notLive]
  by_cases isIndex : c = 'i' ∨ c = 'I'
  · by_cases live : scan.Live
    · refine ⟨scan, Same.refl scan, fun info gives => ?_⟩
      refine gives_of_lookahead scan ((noDirective live).2 isIndex) (by decide) (by decide) settled rfl
        (fun limit past stream notFound => ?_) gives
      have isLive : scan.insideBrace = true ∧ scan.pathName ≠ [] := live
      rw [readChar, if_neg notOpen, if_neg notClose, if_neg isSlash, if_neg isLocation,
        if_neg isRoot, if_pos isIndex, readIndex, if_pos isLive, notFound]
      rfl
    · refine leads_of_nothing (fun limit stream => ?_)
      have notLive : ¬(scan.insideBrace = true ∧ scan.pathName ≠ []) := live
      simp only [readChar, if_neg notOpen, if_neg notClose, if_neg isSlash, if_neg isLocation,
        if_neg isRoot, if_pos isIndex, readIndex, if_neg notLive]
  · refine leads_of_nothing (fun limit stream => ?_)
    simp only [readChar, if_neg notOpen, if_neg notClose, if_neg isSlash, if_neg isLocation,
      if_neg isRoot, if_neg isIndex]

/-! ## Braces and keywords -/

theorem leads_openBrace (scan : LocationScan) (rest : Text) :
    Leads ('{' :: rest) scan rest { scan with insideBrace := true } :=
  fun _ gives => gives_of_round ⟨0, fun _ past _ => ⟨'{' :: past, rfl⟩⟩ gives
    (fun settled isShort => gives.2 settled (Nat.lt_of_succ_lt isShort))

theorem leads_closeBrace (scan : LocationScan) (rest : Text) :
    Leads ('}' :: rest) scan rest { scan with insideBrace := false } :=
  fun _ gives => gives_of_round ⟨0, fun _ past _ => ⟨'}' :: past, rfl⟩⟩ gives
    (fun settled isShort => gives.2 settled (Nat.lt_of_succ_lt isShort))

/-- The keyword of a location. -/
theorem leads_location (scan : LocationScan) (rest : Text) :
    Leads ('l' :: ("ocation ".toList ++ rest)) scan rest { scan with validLocation := true } := by
  intro info gives
  refine gives_of_round ⟨0, fun limit past _ => ⟨"ocation ".toList.reverse ++ 'l' :: past, ?_⟩⟩
    gives (fun _ isShort => ?_)
  · have step : readChar limit scan 'l' ⟨'l' :: past, "ocation ".toList ++ rest, true⟩ =
        some (scan.readLocation ⟨'l' :: past, "ocation ".toList ++ rest, true⟩) := rfl
    rw [step, readLocation, InputStream.expect_append]
    rfl
  · have size : ('l' :: ("ocation ".toList ++ rest)).length = 9 + rest.length := by
      rw [List.length_cons, List.length_append, Nat.add_right_comm]
      rfl
    omega

/-- The variables after a location has been read. -/
def atLocation (scan : LocationScan) (path handler : Text) : LocationScan :=
  { scan with
    validLocation := false
    pathName := path
    handlerName := handler
    locInfo := { scan.locInfo with
      pathToHandler := scan.locInfo.pathToHandler.assign path handler } }

/-- The variables after a directory has been read. -/
def atRoot (scan : LocationScan) (dir : Text) : LocationScan :=
  { scan with
    dirName := dir
    locInfo := { scan.locInfo with
      pathToRoot := scan.locInfo.pathToRoot.assign scan.pathName dir } }

/-- The variables after an index name has been read. -/
def atIndex (scan : LocationScan) (index : Text) : LocationScan :=
  { scan with
    indexName := index
    locInfo := { scan.locInfo with
      pathToIndex := scan.locInfo.pathToIndex.assign scan.pathName index } }

/-- What `case '/'` reads after the keyword of a location. -/
theorem readPath_eq {scan : LocationScan} (valid : scan.validLocation = true)
    {path spaces handler after : Text} {space first ender : Char}
    (pathPlain : forall c, c ∈ path -> isspace c = false)
    (spaced : forall c, c ∈ space :: spaces -> isspace c = true)
    (named : forall c, c ∈ first :: handler -> c.isAlphanum = true ∧ isspace c = false)
    (ends : ender.isAlphanum = false) {limit : Nat}
    (enough : path.length + spaces.length + handler.length + 2 ≤ limit) (past : Text) :
    Exists fun past' : Text =>
      scan.readPath limit
          ⟨past, path ++ space :: (spaces ++ first :: (handler ++ ender :: after)), true⟩ =
        some (scan.atLocation ('/' :: path) (first :: handler), ⟨past', ender :: after, true⟩) := by
  have pathRead := InputStream.getWhile_append past inPath InputStream.append
    (fun c inside => by simp [inPath, pathPlain c inside])
    (by simp [inPath, spaced space List.mem_cons_self] : inPath space = false)
    (by omega : path.length < limit) ['/'] (spaces ++ first :: (handler ++ ender :: after))
  have spacesRead := InputStream.whileChar_append (path.reverse ++ past) isspace InputStream.clear
    spaced (named first List.mem_cons_self).2 (by simp; omega : (space :: spaces).length < limit)
    scan.handlerName (spaces ++ first :: (handler ++ ender :: after)) rfl
  have handlerRead := InputStream.getWhile_append ((space :: spaces).reverse ++ (path.reverse ++ past))
    Char.isAlphanum InputStream.append (fun c inside => (named c inside).1) ends
    (by simp; omega : (first :: handler).length < limit) [] after
  refine ⟨(first :: handler).reverse ++ ((space :: spaces).reverse ++ (path.reverse ++ past)), ?_⟩
  rw [readPath, if_pos valid, pathRead]
  simp only [Option.bind_eq_bind, Option.bind_some]
  rw [spacesRead]
  simp only [Option.bind_some, InputStream.unget_cons]
  rw [InputStream.foldl_clear _ (List.cons_ne_nil _ _), ← List.cons_append, handlerRead]
  simp only [Option.bind_some, InputStream.unget_cons, InputStream.foldl_append, List.nil_append,
    List.singleton_append, atLocation]

/-- The path and the handler of a location are entered. -/
theorem leads_path (scan : LocationScan) (valid : scan.validLocation = true)
    {path spaces handler : Text} {space first ender : Char}
    (pathPlain : forall c, c ∈ path -> isspace c = false)
    (spaced : forall c, c ∈ space :: spaces -> isspace c = true)
    (named : forall c, c ∈ first :: handler -> c.isAlphanum = true ∧ isspace c = false)
    (ends : ender.isAlphanum = false) (after : Text) :
    Leads ('/' :: (path ++ space :: (spaces ++ first :: (handler ++ ender :: after)))) scan
      (ender :: after) (scan.atLocation ('/' :: path) (first :: handler)) := by
  intro info gives
  refine gives_of_round ⟨path.length + spaces.length + handler.length + 2,
    fun limit past enough => ?_⟩ gives (fun settled => by rw [valid] at settled; cases settled)
  have step : forall stream, readChar limit scan '/' stream = scan.readPath limit stream :=
    fun _ => rfl
  rw [step]
  exact readPath_eq valid pathPlain spaced named ends enough ('/' :: past)

/-- The directory of a location is entered. -/
theorem leads_root {scan : LocationScan} (live : scan.Live)
    {spaces dir after : Text} {first ender : Char}
    (spaced : forall c, c ∈ spaces -> isspace c = true)
    (dirPlain : forall c, c ∈ first :: dir -> inDir c = true) (ends : inDir ender = false)
    (more : after ≠ []) :
    Leads ('r' :: ("oot ".toList ++ (spaces ++ first :: (dir ++ ender :: after)))) scan
      (ender :: after) (scan.atRoot (first :: dir)) := by
  intro info gives
  refine gives_of_round ⟨spaces.length + dir.length + 2, fun limit past enough => ?_⟩ gives
    (fun _ isShort => ?_)
  · have begins : beforeDir first = false := by
      have inside := dirPlain first List.mem_cons_self
      simp only [inDir, Bool.not_eq_true', Bool.or_eq_false_iff] at inside
      rw [beforeDir, inside.1.1.2, inside.1.2]
      rfl
    have spacesRead := InputStream.getWhile_append ("oot ".toList.reverse ++ 'r' :: past) beforeDir
      InputStream.clear (fun c inside => by simp [beforeDir, spaced c inside]) begins
      (by omega : spaces.length < limit) [] (dir ++ ender :: after)
    have dirRead := InputStream.getWhile_append
      (spaces.reverse ++ ("oot ".toList.reverse ++ 'r' :: past)) inDir InputStream.append dirPlain
      ends (by simp; omega : (first :: dir).length < limit) [] after
    have step : forall stream, readChar limit scan 'r' stream = scan.readRoot limit stream :=
      fun _ => rfl
    have isLive : scan.insideBrace = true ∧ scan.pathName ≠ [] := live
    refine ⟨(first :: dir).reverse ++ (spaces.reverse ++ ("oot ".toList.reverse ++ 'r' :: past)), ?_⟩
    rw [step, readRoot, if_pos isLive, InputStream.expect_append]
    simp only [if_true]
    rw [spacesRead, InputStream.foldl_clear_nil]
    simp only [Option.bind_eq_bind, Option.bind_some, InputStream.unget_cons]
    rw [← List.cons_append, dirRead, InputStream.foldl_append]
    simp only [Option.bind_some, InputStream.unget_cons, List.nil_append, atRoot]
  · have afterSome := List.length_pos_of_ne_nil more
    have size : "oot ".toList.length = 4 := rfl
    simp only [List.length_cons, List.length_append, size] at isShort
    omega

/-- The index of a location is entered, and the character after it is skipped.  The
spaces after the first one clear the name, so it may go on from an earlier one. -/
theorem leads_index {scan : LocationScan} (live : scan.Live)
    {spaces index after : Text} {first ender : Char}
    (spaced : forall c, c ∈ spaces -> isspace c = true)
    (indexPlain : forall c, c ∈ first :: index -> inIndex c = true)
    (ends : inIndex ender = false) :
    Leads ('i' :: ("ndex ".toList ++ (spaces ++ first :: (index ++ ender :: after)))) scan after
      (scan.atIndex (spaces.foldl InputStream.clear scan.indexName ++ first :: index)) := by
  intro info gives
  refine gives_of_round ⟨spaces.length + index.length + 2, fun limit past enough => ?_⟩ gives
    (fun _ isShort => ?_)
  · have begins : isspace first = false := by
      have inside := indexPlain first List.mem_cons_self
      simp only [inIndex, Bool.not_eq_true', Bool.or_eq_false_iff] at inside
      exact inside.1.2
    have spacesRead := InputStream.getWhile_append ("ndex ".toList.reverse ++ 'i' :: past) isspace
      InputStream.clear spaced begins (by omega : spaces.length < limit) scan.indexName
      (index ++ ender :: after)
    have indexRead := InputStream.getWhile_append
      (spaces.reverse ++ ("ndex ".toList.reverse ++ 'i' :: past)) inIndex InputStream.append
      indexPlain ends (by simp; omega : (first :: index).length < limit)
      (spaces.foldl InputStream.clear scan.indexName) after
    have step : forall stream, readChar limit scan 'i' stream = scan.readIndex limit stream :=
      fun _ => rfl
    have isLive : scan.insideBrace = true ∧ scan.pathName ≠ [] := live
    refine ⟨ender ::
      ((first :: index).reverse ++ (spaces.reverse ++ ("ndex ".toList.reverse ++ 'i' :: past))), ?_⟩
    rw [step, readIndex, if_pos isLive, InputStream.expect_append]
    simp only [if_true]
    rw [spacesRead]
    simp only [Option.bind_eq_bind, Option.bind_some, InputStream.unget_cons]
    rw [← List.cons_append, indexRead, InputStream.foldl_append]
    simp only [Option.bind_some, atIndex]
  · have size : "ndex ".toList.length = 5 := rfl
    simp only [List.length_cons, List.length_append, size] at isShort
    omega

end LocationScan

end Config
end Webserver
