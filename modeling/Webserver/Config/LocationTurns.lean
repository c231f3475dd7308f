import Webserver.Config.LocationSteps
import Webserver.Library.Loops

namespace Webserver
namespace Config

/-!
# `ExtractLocation` on what is left of the file

The rounds of the scan are told again without a stream: what a round makes of the
variables and of the text that is left to read, and where it never ends.  The inner
loops do not look at the state of the stream, and the end-of-file mark is neither
white space nor one of the characters that end a directory or an index.  A path, a
directory or an index that the file does not end is therefore read forever.
-/

namespace LocationScan

open InputStream (getWhile whileChar append clear)
open Loop (Turn Ends Reaches Refines)

/-- The variables and the text that is left, if the stream has not failed. -/
abbrev Spot := LocationScan × Option Text

/-- After a character was put back: at the end of the file there was none. -/
def resume (text : Text) : Option Text := if text = [] then none else some text

/-- After a lookahead was put back: the stream fails where too little text is left. -/
def putBack (keyword rest : Text) : Option Text :=
  if keyword.length ≤ rest.length then some rest else none

/-- `case '/'`. -/
def pathTurn (scan : LocationScan) (rest : Text) : Turn Spot LocationInfo :=
  if scan.validLocation = true then
    if rest.dropWhile inPath = [] then .hangs
    else
      let behind := (rest.dropWhile inPath).dropWhile isspace
      .goOn (scan.atLocation ('/' :: rest.takeWhile inPath) (behind.takeWhile Char.isAlphanum),
        resume (behind.dropWhile Char.isAlphanum))
  else .goOn (scan, some rest)

/-- `case 'l'` and `case 'L'`. -/
def locationTurn (scan : LocationScan) (rest : Text) : Turn Spot LocationInfo :=
  if "ocation ".toList <+: rest then
    .goOn ({ scan with validLocation := true }, some (rest.drop 8))
  else .goOn (scan, putBack "ocation ".toList rest)

instance (scan : LocationScan) : Decidable scan.Live := inferInstanceAs (Decidable (_ ∧ _))

/-- A keyword is looked for in a block, once a path has been read. -/
def keywordTurn (scan missed : LocationScan) (keyword rest : Text)
    (found : Text -> Turn Spot LocationInfo) : Turn Spot LocationInfo :=
  if scan.Live then
    if keyword <+: rest then found (rest.drop keyword.length)
    else .goOn (missed, putBack keyword rest)
  else .goOn (scan, some rest)

/-- The directory behind what may be skipped. -/
def dirTurn (scan : LocationScan) (behind : Text) : Turn Spot LocationInfo :=
  if behind.dropWhile inDir = [] then .hangs
  else .goOn (scan.atRoot (behind.takeWhile inDir), some (behind.dropWhile inDir))

/-- `case 'r'` and `case 'R'`. -/
def rootTurn (scan : LocationScan) (rest : Text) : Turn Spot LocationInfo :=
  scan.keywordTurn { scan with dirName := [] } "oot ".toList rest fun after =>
    scan.dirTurn (after.dropWhile beforeDir)

/-- The index behind the given spaces, which clear an earlier name.  The character that
ends it is not put back. -/
def nameTurn (scan : LocationScan) (spaces behind : Text) : Turn Spot LocationInfo :=
  if behind.dropWhile inIndex = [] then .hangs
  else .goOn (scan.atIndex (spaces.foldl clear scan.indexName ++ behind.takeWhile inIndex),
    some (behind.dropWhile inIndex).tail)

/-- `case 'i'` and `case 'I'`. -/
def indexTurn (scan : LocationScan) (rest : Text) : Turn Spot LocationInfo :=
  scan.keywordTurn scan "ndex ".toList rest fun after =>
    scan.nameTurn (after.takeWhile isspace) (after.dropWhile isspace)

/-- A round at the given character. -/
def charTurn (scan : LocationScan) (c : Char) (rest : Text) : Turn Spot LocationInfo :=
  if c = '{' then .goOn ({ scan with insideBrace := true }, some rest)
  else if c = '}' then .goOn ({ scan with insideBrace := false }, some rest)
  else if c = '/' then scan.pathTurn rest
  else if c = 'l' ∨ c = 'L' then scan.locationTurn rest
  else if c = 'r' ∨ c = 'R' then scan.rootTurn rest
  else if c = 'i' ∨ c = 'I' then scan.indexTurn rest
  else .goOn (scan, some rest)

/-- A round of the scan. -/
def turn : Spot -> Turn Spot LocationInfo
  | (scan, some (c :: rest)) => scan.charTurn c rest
  | (scan, _) => .returns scan.locInfo

/-! ## The rounds on a stream -/

/-- What is left in a stream, if it has not failed. -/
def Left (stream : InputStream) : Option Text -> Prop
  | some text => Exists fun past : Text => stream = ⟨past, text, true⟩
  | none => stream.good = false

theorem left_some (past text : Text) : Left ⟨past, text, true⟩ (some text) := ⟨past, rfl⟩

theorem left_putBack (past : Text) {keyword rest : Text} (differs : ¬ keyword <+: rest)
    (known : eofChar ∉ keyword) :
    Exists fun stream : InputStream =>
      InputStream.expect keyword ⟨past, rest, true⟩ = (false, stream) ∧
        Left stream (putBack keyword rest) := by
  rw [putBack]
  by_cases long : keyword.length ≤ rest.length
  · rw [if_pos long]
    exact ⟨_, InputStream.expect_putBack past rest long differs, left_some past rest⟩
  · rcases InputStream.expect_short past rest (Nat.lt_of_not_le long) known with ⟨past', failed⟩
    rw [if_neg long]
    exact ⟨_, failed, rfl⟩

/-- One case of a round does what the turn says. -/
def Does (read : Nat -> InputStream -> Option (LocationScan × InputStream)) (rest : Text) :
    Turn Spot LocationInfo -> Prop
  | .goOn (scan', left) => forall (limit : Nat) (past : Text), rest.length < limit ->
      Exists fun stream : InputStream =>
        read limit ⟨past, rest, true⟩ = some (scan', stream) ∧ Left stream left
  | .hangs => forall (limit : Nat) (past : Text), read limit ⟨past, rest, true⟩ = none
  | .returns _ => False

/-- The name of the handler is read up to its end, which may be that of the file. -/
theorem readName {limit : Nat} (past : Text) {text : Text} (enough : text.length < limit) :
    Exists fun ender : Char => Exists fun stream : InputStream =>
      getWhile Char.isAlphanum append limit [] ⟨past, text, true⟩ =
        some (ender, text.takeWhile Char.isAlphanum, stream) ∧
        Left stream.unget (resume (text.dropWhile Char.isAlphanum)) := by
  cases behind : text.dropWhile Char.isAlphanum with
  | nil =>
      rw [InputStream.getWhile_ended past append rfl behind enough, InputStream.foldl_append,
        List.takeWhile_eq_self_iff.mpr (InputStream.all_of_dropWhile behind)]
      exact ⟨_, _, rfl, by rw [InputStream.unget_failed]; rfl⟩
  | cons ender after =>
      rw [InputStream.getWhile_found past append behind enough, InputStream.foldl_append]
      exact ⟨_, _, rfl, left_some _ _⟩

/-- Behind the end of the file the name is empty. -/
theorem readName_failed {limit : Nat} (past : Text) (enough : 0 < limit) :
    getWhile Char.isAlphanum append limit [] ⟨past, [], false⟩ =
      some (eofChar, [], ⟨past, [], false⟩) := by
  cases limit with
  | zero => cases enough
  | succ limit => rfl

theorem readPath_does (scan : LocationScan) (rest : Text) :
    Does (fun limit => scan.readPath limit) rest (scan.pathTurn rest) := by
  rw [pathTurn]
  by_cases valid : scan.validLocation = true
  · rw [if_pos valid]
    cases spaced : rest.dropWhile inPath with
    | nil =>
        intro limit past
        simp only [readPath, if_pos valid, InputStream.getWhile_hangs past append rfl spaced]
        rfl
    | cons space spaces =>
        intro limit past enough
        have isSpace : isspace space = true := by
          simpa [inPath] using InputStream.not_of_dropWhile spaced
        have size := List.length_dropWhile_le inPath rest
        rw [spaced] at size
        have named := List.length_dropWhile_le isspace (space :: spaces)
        -- The first of the spaces has already been read.
        have skipped : forall past' name : Text,
            whileChar isspace clear limit space name ⟨space :: past', spaces, true⟩ =
              getWhile isspace clear limit name ⟨past', space :: spaces, true⟩ := fun _ _ => rfl
        beta_reduce
        rw [readPath, if_pos valid, InputStream.getWhile_found past append spaced enough,
          InputStream.foldl_append]
        simp only [Option.bind_eq_bind, Option.bind_some, List.singleton_append]
        rw [skipped]
        cases behind : (space :: spaces).dropWhile isspace with
        | nil =>
            rw [InputStream.getWhile_ended _ clear rfl behind (by omega),
              InputStream.foldl_clear _ (List.cons_ne_nil _ _)]
            simp only [Option.bind_some, InputStream.unget_failed]
            rw [readName_failed _ (by omega)]
            simp only [Option.bind_some, InputStream.unget_failed]
            exact ⟨_, rfl, rfl⟩
        | cons first others =>
            rw [InputStream.getWhile_found _ clear behind (by omega)]
            have cleared : ((space :: spaces).takeWhile isspace).foldl clear scan.handlerName = [] := by
              rw [List.takeWhile_cons_of_pos isSpace]
              exact InputStream.foldl_clear _ (List.cons_ne_nil _ _)
            rw [behind] at named
            rw [cleared]
            simp only [Option.bind_some, InputStream.unget_cons]
            rcases readName (((space :: spaces).takeWhile isspace).reverse ++
                ((rest.takeWhile inPath).reverse ++ past)) (show (first :: others).length < limit by omega)
              with ⟨ender, stream, isRead, left⟩
            rw [isRead]
            exact ⟨_, rfl, left⟩
  · rw [if_neg valid]
    intro limit past _
    exact ⟨⟨past, rest, true⟩, by simp only [readPath, if_neg valid], left_some past rest⟩

theorem readLocation_does (scan : LocationScan) (rest : Text) :
    Does (fun _ stream => some (scan.readLocation stream)) rest (scan.locationTurn rest) := by
  rw [locationTurn]
  by_cases begins : "ocation ".toList <+: rest
  · rw [if_pos begins]
    rcases begins with ⟨after, rfl⟩
    intro limit past _
    refine ⟨⟨"ocation ".toList.reverse ++ past, after, true⟩, ?_, left_some _ _⟩
    simp only [readLocation, InputStream.expect_append]
    rfl
  · rw [if_neg begins]
    intro limit past _
    rcases left_putBack past begins (by decide) with ⟨stream, isRead, left⟩
    refine ⟨stream, ?_, left⟩
    simp only [readLocation, isRead]
    rfl

theorem keyword_does {scan missed : LocationScan} {keyword : Text} (known : eofChar ∉ keyword)
    {read : Nat -> InputStream -> Option (LocationScan × InputStream)}
    {found : Text -> Turn Spot LocationInfo}
    (idle : ¬ scan.Live -> forall limit stream, read limit stream = some (scan, stream))
    (misses : scan.Live -> forall limit stream after, stream.expect keyword = (false, after) ->
      read limit stream = some (missed, after))
    (finds : scan.Live -> forall after, Does read (keyword ++ after) (found after)) (rest : Text) :
    Does read rest (scan.keywordTurn missed keyword rest found) := by
  rw [keywordTurn]
  by_cases live : scan.Live
  · rw [if_pos live]
    by_cases begins : keyword <+: rest
    · rw [if_pos begins]
      rcases begins with ⟨after, rfl⟩
      rw [List.drop_left]
      exact finds live after
    · rw [if_neg begins]
      intro limit past _
      rcases left_putBack past begins known with ⟨stream, isRead, left⟩
      exact ⟨stream, misses live _ _ _ isRead, left⟩
  · rw [if_neg live]
    exact fun limit past _ => ⟨⟨past, rest, true⟩, idle live _ _, left_some past rest⟩

/-- What `case 'r'` does behind its keyword. -/
theorem readRoot_found {scan : LocationScan} (live : scan.Live) (limit : Nat) (past after : Text) :
    scan.readRoot limit ⟨past, "oot ".toList ++ after, true⟩ =
      (getWhile beforeDir clear limit [] ⟨"oot ".toList.reverse ++ past, after, true⟩).bind
        fun skipped =>
          (getWhile inDir append limit skipped.2.1 skipped.2.2.unget).bind fun found =>
            some (scan.atRoot found.2.1, found.2.2.unget) := by
  have isLive : scan.insideBrace = true ∧ scan.pathName ≠ [] := live
  rw [readRoot, if_pos isLive, InputStream.expect_append]
  rfl

theorem readDir_does {scan : LocationScan} (live : scan.Live) (after : Text) :
    Does (fun limit => scan.readRoot limit) ("oot ".toList ++ after)
      (scan.dirTurn (after.dropWhile beforeDir)) := by
  have hangs : forall {bound : Nat} {past : Text} {skipped : Char × Text × InputStream},
      getWhile beforeDir clear bound [] ⟨"oot ".toList.reverse ++ past, after, true⟩ = some skipped ->
      (forall limit, getWhile inDir append limit skipped.2.1 skipped.2.2.unget = none) ->
      forall limit, scan.readRoot limit ⟨past, "oot ".toList ++ after, true⟩ = none := by
    intro bound past skipped known endless limit
    rw [readRoot_found live]
    rcases InputStream.getWhile_none_or known limit with nothing | found
    · rw [nothing]
      rfl
    · rw [found, Option.bind_some, endless]
      rfl
  cases behind : after.dropWhile beforeDir with
  | nil =>
      intro limit past
      refine hangs (InputStream.getWhile_ended _ clear rfl behind (Nat.lt_succ_self _) []) ?_ limit
      intro limit
      rw [InputStream.unget_failed, getWhile, InputStream.get_failed]
      exact InputStream.whileChar_failed _ [] inDir append rfl limit _
  | cons first others =>
      rw [dirTurn]
      cases ended : (first :: others).dropWhile inDir with
      | nil =>
          intro limit past
          refine hangs (InputStream.getWhile_found _ clear behind (Nat.lt_succ_self _) []) ?_ limit
          intro limit
          rw [InputStream.unget_cons]
          exact InputStream.getWhile_hangs _ append rfl ended limit _
      | cons ender more =>
          intro limit past enough
          have size := List.length_dropWhile_le beforeDir after
          rw [behind] at size
          rw [List.length_append] at enough
          beta_reduce
          rw [readRoot_found live, InputStream.getWhile_found _ clear behind (by omega),
            InputStream.foldl_clear_nil, Option.bind_some, InputStream.unget_cons,
            InputStream.getWhile_found _ append ended (by omega), InputStream.foldl_append]
          exact ⟨_, rfl, left_some _ _⟩

theorem readRoot_does (scan : LocationScan) (rest : Text) :
    Does (fun limit => scan.readRoot limit) rest (scan.rootTurn rest) := by
  refine keyword_does (by decide) ?_ ?_ (fun live => readDir_does live) rest
  · intro notLive limit stream
    have settled : ¬(scan.insideBrace = true ∧ scan.pathName ≠ []) := notLive
    rw [readRoot, if_neg settled]
  · intro live limit stream after isRead
    have isLive : scan.insideBrace = true ∧ scan.pathName ≠ [] := live
    rw [readRoot, if_pos isLive, isRead]
    rfl

/-- What `case 'i'` does behind its keyword. -/
theorem readIndex_found {scan : LocationScan} (live : scan.Live) (limit : Nat) (past after : Text) :
    scan.readIndex limit ⟨past, "ndex ".toList ++ after, true⟩ =
      (getWhile isspace clear limit scan.indexName
        ⟨"ndex ".toList.reverse ++ past, after, true⟩).bind
        fun skipped =>
          (getWhile inIndex append limit skipped.2.1 skipped.2.2.unget).bind fun found =>
            some (scan.atIndex found.2.1, found.2.2) := by
  have isLive : scan.insideBrace = true ∧ scan.pathName ≠ [] := live
  rw [readIndex, if_pos isLive, InputStream.expect_append]
  rfl

theorem readName_does {scan : LocationScan} (live : scan.Live) (after : Text) :
    Does (fun limit => scan.readIndex limit) ("ndex ".toList ++ after)
      (scan.nameTurn (after.takeWhile isspace) (after.dropWhile isspace)) := by
  have hangs : forall {bound : Nat} {past : Text} {skipped : Char × Text × InputStream},
      getWhile isspace clear bound scan.indexName
          ⟨"ndex ".toList.reverse ++ past, after, true⟩ = some skipped ->
      (forall limit, getWhile inIndex append limit skipped.2.1 skipped.2.2.unget = none) ->
      forall limit, scan.readIndex limit ⟨past, "ndex ".toList ++ after, true⟩ = none := by
    intro bound past skipped known endless limit
    rw [readIndex_found live]
    rcases InputStream.getWhile_none_or known limit with nothing | found
    · rw [nothing]
      rfl
    · rw [found, Option.bind_some, endless]
      rfl
  cases behind : after.dropWhile isspace with
  | nil =>
      intro limit past
      refine hangs (InputStream.getWhile_ended _ clear rfl behind (Nat.lt_succ_self _) _) ?_ limit
      intro limit
      rw [InputStream.unget_failed, getWhile, InputStream.get_failed]
      exact InputStream.whileChar_failed _ [] inIndex append rfl limit _
  | cons first others =>
      rw [nameTurn]
      cases ended : (first :: others).dropWhile inIndex with
      | nil =>
          intro limit past
          refine hangs (InputStream.getWhile_found _ clear behind (Nat.lt_succ_self _) _) ?_ limit
          intro limit
          rw [InputStream.unget_cons]
          exact InputStream.getWhile_hangs _ append rfl ended limit _
      | cons ender more =>
          intro limit past enough
          have size := List.length_dropWhile_le isspace after
          rw [behind] at size
          rw [List.length_append] at enough
          beta_reduce
          rw [readIndex_found live, InputStream.getWhile_found _ clear behind (by omega),
            Option.bind_some, InputStream.unget_cons,
            InputStream.getWhile_found _ append ended (by omega), InputStream.foldl_append]
          exact ⟨_, rfl, left_some _ _⟩

theorem readIndex_does (scan : LocationScan) (rest : Text) :
    Does (fun limit => scan.readIndex limit) rest (scan.indexTurn rest) := by
  refine keyword_does (by decide) ?_ ?_ (fun live => readName_does live) rest
  · intro notLive limit stream
    have settled : ¬(scan.insideBrace = true ∧ scan.pathName ≠ []) := notLive
    rw [readIndex, if_neg settled]
  · intro live limit stream after isRead
    have isLive : scan.insideBrace = true ∧ scan.pathName ≠ [] := live
    rw [readIndex, if_pos isLive, isRead]
    rfl

theorem readChar_does (scan : LocationScan) (c : Char) (rest : Text) :
    Does (fun limit => scan.readChar limit c) rest (scan.charTurn c rest) := by
  have plain : forall scan' : LocationScan,
      Does (fun _ stream => some (scan', stream)) rest (.goOn (scan', some rest)) :=
    fun scan' _ past _ => ⟨_, rfl, left_some past rest⟩
  unfold charTurn readChar
  by_cases isOpen : c = '{'
  · simp only [if_pos isOpen]
    exact plain _
  by_cases isClose : c = '}'
  · simp only [if_neg isOpen, if_pos isClose]
    exact plain _
  by_cases isSlash : c = '/'
  · simp only [if_neg isOpen, if_neg isClose, if_pos isSlash]
    exact readPath_does scan rest
  by_cases isLocation : c = 'l' ∨ c = 'L'
  · simp only [if_neg isOpen, if_neg isClose, if_neg isSlash, if_pos isLocation]
    exact readLocation_does scan rest
  by_cases isRoot : c = 'r' ∨ c = 'R'
  · simp only [if_neg isOpen, if_neg isClose, if_neg isSlash, if_neg isLocation, if_pos isRoot]
    exact readRoot_does scan rest
  by_cases isIndex : c = 'i' ∨ c = 'I'
  · simp only [if_neg isOpen, if_neg isClose, if_neg isSlash, if_neg isLocation, if_neg isRoot,
      if_pos isIndex]
    exact readIndex_does scan rest
  · simp only [if_neg isOpen, if_neg isClose, if_neg isSlash, if_neg isLocation, if_neg isRoot,
      if_neg isIndex]
    exact plain _

theorem readChar_goOn {scan scan' : LocationScan} {c : Char} {rest : Text} {left : Option Text}
    (outcome : scan.charTurn c rest = .goOn (scan', left)) {limit : Nat} (past : Text)
    (enough : rest.length < limit) :
    Exists fun stream : InputStream =>
      scan.readChar limit c ⟨past, rest, true⟩ = some (scan', stream) ∧ Left stream left := by
  have does := readChar_does scan c rest
  rw [outcome] at does
  exact does limit past enough

theorem readChar_hangs {scan : LocationScan} {c : Char} {rest : Text}
    (outcome : scan.charTurn c rest = .hangs) (limit : Nat) (past : Text) :
    scan.readChar limit c ⟨past, rest, true⟩ = none := by
  have does := readChar_does scan c rest
  rw [outcome] at does
  exact does limit past

/-! ## Larger limits -/

section Mono

variable {limit limit' : Nat} {scan : LocationScan} {stream : InputStream}
  {result : LocationScan × InputStream}

theorem readPath_mono (atLeast : limit ≤ limit') (isRead : scan.readPath limit stream = some result) :
    scan.readPath limit' stream = some result := by
  rw [readPath] at isRead ⊢
  split at isRead
  · rename_i valid
    rw [if_pos valid]
    refine InputStream.bind_mono (fun _ => InputStream.getWhile_mono append atLeast) ?_ isRead
    rintro ⟨readChar, pathName, stream⟩ isRead
    refine InputStream.bind_mono (fun _ => InputStream.whileChar_mono _ clear atLeast) ?_ isRead
    rintro ⟨_, handlerName, stream⟩ isRead
    exact InputStream.bind_mono (fun _ => InputStream.getWhile_mono append atLeast)
      (fun _ => id) isRead
  · rename_i settled
    rw [if_neg settled]
    exact isRead

theorem readRoot_mono (atLeast : limit ≤ limit') (isRead : scan.readRoot limit stream = some result) :
    scan.readRoot limit' stream = some result := by
  rw [readRoot] at isRead ⊢
  by_cases live : scan.insideBrace = true ∧ scan.pathName ≠ []
  · rw [if_pos live] at isRead ⊢
    generalize stream.expect "oot ".toList = looked at isRead ⊢
    rcases looked with ⟨found | found, after⟩
    · exact isRead
    · refine InputStream.bind_mono (fun _ => InputStream.getWhile_mono clear atLeast) ?_ isRead
      rintro ⟨_, dirName, stream⟩ isRead
      exact InputStream.bind_mono (fun _ => InputStream.getWhile_mono append atLeast)
        (fun _ => id) isRead
  · rw [if_neg live] at isRead ⊢
    exact isRead

theorem readIndex_mono (atLeast : limit ≤ limit')
    (isRead : scan.readIndex limit stream = some result) :
    scan.readIndex limit' stream = some result := by
  rw [readIndex] at isRead ⊢
  by_cases live : scan.insideBrace = true ∧ scan.pathName ≠ []
  · rw [if_pos live] at isRead ⊢
    generalize stream.expect "ndex ".toList = looked at isRead ⊢
    rcases looked with ⟨found | found, after⟩
    · exact isRead
    · refine InputStream.bind_mono (fun _ => InputStream.getWhile_mono clear atLeast) ?_ isRead
      rintro ⟨_, indexName, stream⟩ isRead
      exact InputStream.bind_mono (fun _ => InputStream.getWhile_mono append atLeast)
        (fun _ => id) isRead
  · rw [if_neg live] at isRead ⊢
    exact isRead

theorem readChar_mono (atLeast : limit ≤ limit') {c : Char}
    (isRead : scan.readChar limit c stream = some result) :
    scan.readChar limit' c stream = some result := by
  rw [readChar] at isRead ⊢
  split_ifs at isRead ⊢
  · exact isRead
  · exact isRead
  · exact readPath_mono atLeast isRead
  · exact isRead
  · exact readRoot_mono atLeast isRead
  · exact readIndex_mono atLeast isRead
  · exact isRead

end Mono

/-! ## The scan and its turns -/

/-- A round of the loop. -/
def round (limit : Nat) (state : LocationScan × InputStream) :
    Option (Sum (LocationScan × InputStream) LocationInfo) :=
  let (c, stream) := state.2.get
  if stream.good = false then some (.inr state.1.locInfo)
  else (state.1.readChar limit c stream).map .inl

theorem run_eq_limited (limit rounds : Nat) (scan : LocationScan) (stream : InputStream) :
    run limit rounds scan stream = Loop.limited round limit rounds (scan, stream) := by
  induction rounds generalizing scan stream with
  | zero => rfl
  | succ rounds inductionHypothesis =>
      rw [run, Loop.limited, round]
      dsimp only
      split
      · rfl
      · cases isRead : scan.readChar limit stream.get.1 stream.get.2 with
        | none => rfl
        | some found => exact inductionHypothesis found.1 found.2

/-- The variables are the same, and so is what is left. -/
inductive Matches : LocationScan × InputStream -> Spot -> Prop
  | reading (scan : LocationScan) (past text : Text) :
      Matches (scan, ⟨past, text, true⟩) (scan, some text)
  | failed (scan : LocationScan) {stream : InputStream} (failed : stream.good = false) :
      Matches (scan, stream) (scan, none)

theorem Left.matches {stream : InputStream} {left : Option Text} (isLeft : Left stream left)
    (scan : LocationScan) : Matches (scan, stream) (scan, left) := by
  cases left with
  | none => exact .failed scan isLeft
  | some text =>
      rcases isLeft with ⟨past, rfl⟩
      exact .reading scan past text

theorem round_failed {scan : LocationScan} {stream : InputStream} (failed : stream.good = false)
    (limit : Nat) : round limit (scan, stream) = some (.inr scan.locInfo) := by
  rcases stream with ⟨past, rest, good⟩
  obtain rfl : good = false := failed
  rw [round, InputStream.get_failed]
  rfl

theorem round_cons (limit : Nat) (scan : LocationScan) (past : Text) (c : Char) (rest : Text) :
    round limit (scan, ⟨past, c :: rest, true⟩) =
      (scan.readChar limit c ⟨c :: past, rest, true⟩).map .inl := rfl

/-- Only the next character can lead on. -/
theorem charTurn_ne_returns (scan : LocationScan) (c : Char) (rest : Text) (info : LocationInfo) :
    scan.charTurn c rest ≠ .returns info := by
  intro returns
  have does := readChar_does scan c rest
  rw [returns] at does
  exact does

theorem round_refines : Refines round turn Matches where
  mono := by
    rintro limit limit' ⟨scan, stream⟩ outcome atLeast isRead
    rw [round] at isRead ⊢
    dsimp only at isRead ⊢
    split at isRead
    · rename_i failed
      rw [if_pos failed]
      exact isRead
    · rename_i good
      rw [if_neg good]
      rcases Option.map_eq_some_iff.mp isRead with ⟨found, isFound, rfl⟩
      exact Option.map_eq_some_iff.mpr ⟨found, readChar_mono atLeast isFound, rfl⟩
  goOn := by
    rintro _ _ ⟨scan', left'⟩ matched outcome
    cases matched with
    | failed scan failed => cases outcome
    | reading scan past text =>
        cases text with
        | nil => cases outcome
        | cons c rest =>
            rcases readChar_goOn outcome (c :: past) (Nat.lt_succ_self _) with
              ⟨stream', isRead, isLeft⟩
            exact ⟨rest.length + 1, (scan', stream'), by rw [round_cons, isRead]; rfl,
              isLeft.matches scan'⟩
  returns := by
    rintro _ _ info matched outcome
    cases matched with
    | failed scan failed =>
        injection outcome with same
        exact ⟨0, same ▸ round_failed failed 0⟩
    | reading scan past text =>
        cases text with
        | nil =>
            injection outcome with same
            exact ⟨0, same ▸ rfl⟩
        | cons c rest => exact absurd outcome (charTurn_ne_returns scan c rest info)
  hangs := by
    rintro _ _ matched outcome limit
    cases matched with
    | failed scan failed => cases outcome
    | reading scan past text =>
        cases text with
        | nil => cases outcome
        | cons c rest =>
            rw [round_cons, readChar_hangs outcome]
            rfl

/-- What the function returns is what the turns lead to. -/
theorem extractLocation_ends_iff (text : Text) (info : LocationInfo) :
    (Exists fun limit : Nat => extractLocation limit text = some info) <->
      Ends turn (.initial, some text) info := by
  have opened : Matches (.initial, .opened text) (.initial, some text) := .reading _ [] text
  constructor
  · rintro ⟨limit, returned⟩
    rw [extractLocation, run_eq_limited] at returned
    exact round_refines.ends opened returned
  · intro ends
    rcases round_refines.limited_of_ends opened ends with ⟨bound, returned⟩
    refine ⟨bound, ?_⟩
    rw [extractLocation, run_eq_limited]
    exact returned bound bound (Nat.le_refl _) (Nat.le_refl _)

/-! ## Every round reads on -/

theorem left_of_goOn {scan scan' : LocationScan} {left rest' : Text}
    (outcome : (.goOn (scan, some left) : Turn Spot LocationInfo) = .goOn (scan', some rest')) :
    rest' = left := by
  injection outcome with same
  exact (Option.some.inj (congrArg Prod.snd same)).symm

theorem suffix_of_putBack {keyword rest rest' : Text} {scan scan' : LocationScan}
    (outcome : (.goOn (scan, putBack keyword rest) : Turn Spot LocationInfo) =
      .goOn (scan', some rest')) : rest' <:+ rest := by
  rw [putBack] at outcome
  split at outcome
  · rw [left_of_goOn outcome]
  · injection outcome with same
    cases congrArg Prod.snd same

theorem keywordTurn_suffix {scan missed scan' : LocationScan} {keyword rest rest' : Text}
    {found : Text -> Turn Spot LocationInfo}
    (finds : forall after, found after = .goOn (scan', some rest') -> rest' <:+ after)
    (outcome : scan.keywordTurn missed keyword rest found = .goOn (scan', some rest')) :
    rest' <:+ rest := by
  rw [keywordTurn] at outcome
  split at outcome
  · split at outcome
    · exact (finds _ outcome).trans (List.drop_suffix _ _)
    · exact suffix_of_putBack outcome
  · rw [left_of_goOn outcome]

theorem pathTurn_suffix {scan scan' : LocationScan} {rest rest' : Text}
    (outcome : scan.pathTurn rest = .goOn (scan', some rest')) : rest' <:+ rest := by
  rw [pathTurn] at outcome
  split at outcome
  · split at outcome
    · cases outcome
    · dsimp only at outcome
      rw [resume] at outcome
      split at outcome
      · injection outcome with same
        cases congrArg Prod.snd same
      · rw [left_of_goOn outcome]
        exact ((List.dropWhile_suffix _).trans (List.dropWhile_suffix _)).trans
          (List.dropWhile_suffix _)
  · rw [left_of_goOn outcome]

/-- What is left after a round is the end of what was left before. -/
theorem charTurn_suffix {scan scan' : LocationScan} {c : Char} {rest rest' : Text}
    (outcome : scan.charTurn c rest = .goOn (scan', some rest')) : rest' <:+ rest := by
  rw [charTurn] at outcome
  split_ifs at outcome
  · rw [left_of_goOn outcome]
  · rw [left_of_goOn outcome]
  · exact pathTurn_suffix outcome
  · rw [locationTurn] at outcome
    split at outcome
    · rw [left_of_goOn outcome]
      exact List.drop_suffix _ _
    · exact suffix_of_putBack outcome
  · refine keywordTurn_suffix (fun after isDir => ?_) outcome
    rw [dirTurn] at isDir
    split at isDir
    · cases isDir
    · rw [left_of_goOn isDir]
      exact (List.dropWhile_suffix _).trans (List.dropWhile_suffix _)
  · refine keywordTurn_suffix (fun after isName => ?_) outcome
    rw [nameTurn] at isName
    split at isName
    · cases isName
    · rw [left_of_goOn isName]
      exact ((List.tail_suffix _).trans (List.dropWhile_suffix _)).trans (List.dropWhile_suffix _)
  · rw [left_of_goOn outcome]

/-- How much is left to do. -/
def remaining (spot : Spot) : Nat := spot.2.elim 0 (fun text => text.length + 1)

theorem turn_decreases (spot next : Spot) (outcome : turn spot = .goOn next) :
    remaining next < remaining spot := by
  rcases spot with ⟨scan, left⟩
  rcases next with ⟨scan', left'⟩
  match left, outcome with
  | some (c :: rest), outcome =>
      cases left' with
      | none => exact Nat.succ_pos _
      | some rest' =>
          have shorter := (charTurn_suffix outcome).length_le
          simp only [remaining, Option.elim_some, List.length_cons]
          omega

end LocationScan

end Config
end Webserver
