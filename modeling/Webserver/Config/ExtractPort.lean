import Webserver.Http.Messages
import Webserver.Library.Streams
import Mathlib.Data.Bool.AllAny

namespace Webserver
namespace Config

/-!
# `NginxConfigParser::ExtractPort`

The file is scanned character by character for `listen ` or `port `, the first
letter in either case.  A number behind one of them ends the scan, whether it is a
port or not.  Every loop of the function has a limit on its rounds here, and the
result is `none` when a limit is not enough; `std::stoi` may throw.
-/

/-- What has to follow a first letter: `token_listen` and `token_port`. -/
def portToken (c : Char) : Option Text :=
  if c = 'l' ∨ c = 'L' then some "isten ".toList
  else if c = 'p' ∨ c = 'P' then some "ort ".toList
  else none

/-- The ports that are accepted. -/
def ValidPort (port : Int) : Prop := (1024 ≤ port ∧ port ≤ 65535) ∨ port = 80

instance (port : Int) : Decidable (ValidPort port) := inferInstanceAs (Decidable (_ ∨ _))

/-- How one round of the loop ends. -/
inductive PortRound where
  | goOn (stream : InputStream)
  | done (result : Except Fault Int)

open InputStream (getWhile whileChar append clear)

/-- `stoi(port_num)` and the check of its range. -/
def checkPort (portNum : Text) : Except Fault Int :=
  match CInt.stoi portNum with
  | some port => .ok (if ValidPort port.value then port.value else -1)
  | none => .error .outOfRange

/-- What follows one of the two words. -/
def readPort (limit : Nat) (stream : InputStream) : Option PortRound := do
  let (_, _, stream) ← getWhile isspace clear limit [] stream
  let (readChar, stream) := stream.unget.get
  if readChar = '0' then some (.done (.ok (-1)))
  else if readChar.isDigit = false then some (.goOn stream.unget)
  else
    let (_, portNum, _) ← whileChar Char.isDigit append limit readChar [] stream
    some (.done (checkPort portNum))

/-- What the loop does with a character. -/
def portRound (limit : Nat) (c : Char) (stream : InputStream) : Option PortRound :=
  match portToken c with
  | none => some (.goOn stream)
  | some token =>
      let (found, stream) := stream.expect token
      if found = true then readPort limit stream else some (.goOn stream)

/-- The loop over the file, with a limit for its rounds and one for those of each
inner loop. -/
def portRun (limit : Nat) : Nat -> InputStream -> Option (Except Fault Int)
  | 0, _ => none
  | rounds + 1, stream =>
      let (c, stream) := stream.get
      if stream.good = false then some (.ok (-1))
      else
        match portRound limit c stream with
        | none => none
        | some (.goOn stream) => portRun limit rounds stream
        | some (.done result) => some result

/-- `ExtractPort` on a file with the given text. -/
def extractPort (limit : Nat) (text : Text) : Option (Except Fault Int) :=
  portRun limit limit (.opened text)

example : extractPort 30 "Listen port   08;".toList = some (.ok (-1)) := by decide

/-! ## The number that decides -/

/-- The digits behind one of the two words at the beginning of a text, and behind
optional white space. -/
def statedPort : Text -> Option Text
  | [] => none
  | c :: rest =>
      match portToken c with
      | none => none
      | some token =>
          let digits := ((rest.drop token.length).dropWhile isspace).takeWhile Char.isDigit
          if token <+: rest ∧ digits ≠ [] then some digits else none

/-- The digits behind optional white space. -/
def numberBehind (text : Text) : Text := (text.dropWhile isspace).takeWhile Char.isDigit

/-- The first such digits in a text. -/
def firstPort : Text -> Option Text
  | [] => none
  | c :: rest =>
      match statedPort (c :: rest) with
      | some digits => some digits
      | none => firstPort rest

/-- What becomes of the first digits. -/
def answer : Option Text -> Except Fault Int
  | none => .ok (-1)
  | some digits => if digits.head? = some '0' then .ok (-1) else checkPort digits

theorem portToken_cases {c : Char} {token : Text} (isToken : portToken c = some token) :
    token = "isten ".toList ∨ token = "ort ".toList := by
  rw [portToken] at isToken
  split at isToken
  · exact Or.inl (Option.some.inj isToken).symm
  split at isToken
  · exact Or.inr (Option.some.inj isToken).symm
  · cases isToken

/-- None of the words begins inside one of them. -/
theorem portToken_inside {c : Char} {token : Text} (isToken : portToken c = some token) :
    forall d, d ∈ token -> portToken d = none := by
  rcases portToken_cases isToken with rfl | rfl <;> exact List.all_iff_forall_prop.mp (by decide)

theorem portToken_space {c : Char} (space : isspace c = true) : portToken c = none := by
  simp only [isspace, Bool.or_eq_true, beq_iff_eq] at space
  rcases space with ((((rfl | rfl) | rfl) | rfl) | rfl) | rfl <;> rfl

theorem statedPort_of_none {c : Char} (noToken : portToken c = none) (rest : Text) :
    statedPort (c :: rest) = none := by
  rw [statedPort, noToken]

theorem statedPort_of_some {c : Char} {token : Text} (isToken : portToken c = some token)
    (rest : Text) :
    statedPort (c :: (token ++ rest)) =
      if numberBehind rest ≠ [] then some (numberBehind rest) else none := by
  rw [statedPort, isToken]
  simp only [List.drop_left, List.prefix_append, true_and]
  rfl

theorem statedPort_of_other {c : Char} {token rest : Text} (isToken : portToken c = some token)
    (differs : ¬ token <+: rest) : statedPort (c :: rest) = none := by
  rw [statedPort, isToken]
  simp only [differs, false_and, if_false]

theorem firstPort_skip {word : Text} (noToken : forall c, c ∈ word -> portToken c = none)
    (rest : Text) : firstPort (word ++ rest) = firstPort rest := by
  induction word with
  | nil => rfl
  | cons c word inductionHypothesis =>
      rw [List.cons_append, firstPort, statedPort_of_none (noToken c List.mem_cons_self)]
      exact inductionHypothesis (fun d later => noToken d (List.mem_cons_of_mem c later))

theorem firstPort_dropWhile (text : Text) : firstPort (text.dropWhile isspace) = firstPort text := by
  conv_rhs => rw [← List.takeWhile_append_dropWhile (p := isspace) (l := text)]
  exact (firstPort_skip (fun d blank => portToken_space (List.mem_takeWhile_imp blank)) _).symm

/-- A word, a number and nothing else: that takes six characters. -/
theorem firstPort_length {text digits : Text} (found : firstPort text = some digits) :
    6 ≤ text.length := by
  induction text with
  | nil => cases found
  | cons c rest inductionHypothesis =>
      rw [firstPort] at found
      cases here : statedPort (c :: rest) with
      | none =>
          rw [here] at found
          exact Nat.le_succ_of_le (inductionHypothesis found)
      | some stated =>
          cases isToken : portToken c with
          | none =>
              rw [statedPort_of_none isToken] at here
              cases here
          | some token =>
              by_cases begins : token <+: rest
              · rcases begins with ⟨after, rfl⟩
                rw [statedPort_of_some isToken] at here
                have filled : after ≠ [] := by
                  rintro rfl
                  simp [numberBehind] at here
                have more := List.length_pos_iff.mpr filled
                have atLeast : 4 ≤ token.length := by
                  rcases portToken_cases isToken with rfl | rfl <;> decide
                rw [List.length_cons, List.length_append]
                omega
              · rw [statedPort_of_other isToken begins] at here
                cases here

/-! ## The loop and the first number -/

/-- The digits are read up to their end, which may be that of the file. -/
theorem readDigits {limit : Nat} (past : Text) (d : Char) {rest : Text}
    (enough : rest.length + 1 < limit) :
    Exists fun ender : Char => Exists fun after : InputStream =>
      whileChar Char.isDigit append limit d [] ⟨d :: past, rest, true⟩ =
        some (ender, (d :: rest).takeWhile Char.isDigit, after) := by
  change Exists fun ender : Char => Exists fun after : InputStream =>
    getWhile Char.isDigit append limit [] ⟨past, d :: rest, true⟩ = some (ender, _, after)
  cases behind : (d :: rest).dropWhile Char.isDigit with
  | nil =>
      have whole := List.takeWhile_eq_self_iff.mpr (InputStream.all_of_dropWhile behind)
      rw [InputStream.getWhile_ended past append rfl behind enough, InputStream.foldl_append,
        List.nil_append, whole]
      exact ⟨_, _, rfl⟩
  | cons ender after =>
      rw [InputStream.getWhile_found past append behind enough, InputStream.foldl_append,
        List.nil_append]
      exact ⟨_, _, rfl⟩

/-- Behind one of the words a number ends the scan; otherwise it goes on behind the white
space, if anything is left there. -/
theorem readPort_eq {limit : Nat} (past : Text) {after : Text} (enough : after.length < limit) :
    readPort limit ⟨past, after, true⟩ = some (
      if numberBehind after ≠ [] then .done (answer (some (numberBehind after)))
      else
        .goOn ⟨(after.takeWhile isspace).reverse ++ past, after.dropWhile isspace,
          (after.dropWhile isspace).isEmpty = false⟩) := by
  have size := List.length_dropWhile_le isspace after
  rw [numberBehind]
  cases behind : after.dropWhile isspace with
  | nil =>
      rw [List.takeWhile_eq_self_iff.mpr (InputStream.all_of_dropWhile behind), readPort,
        InputStream.getWhile_ended past clear rfl behind enough]
      simp only [Option.bind_eq_bind, Option.bind_some, InputStream.unget_failed,
        InputStream.get_failed]
      rfl
  | cons d rest =>
      rw [behind, List.length_cons] at size
      rw [readPort, InputStream.getWhile_found past clear behind enough]
      change (if d = '0' then some (PortRound.done (.ok (-1)))
        else if d.isDigit = false then
          some (.goOn ⟨(after.takeWhile isspace).reverse ++ past, d :: rest, true⟩)
        else (whileChar Char.isDigit append limit d []
            ⟨d :: ((after.takeWhile isspace).reverse ++ past), rest, true⟩).bind
          fun found => some (.done (checkPort found.2.1))) = _
      by_cases digit : d.isDigit = true
      · have filled : (d :: rest).takeWhile Char.isDigit ≠ [] := by
          rw [List.takeWhile_cons_of_pos digit]
          exact List.cons_ne_nil _ _
        rw [if_pos filled]
        by_cases zero : d = '0'
        · rw [if_pos zero, List.takeWhile_cons_of_pos digit, answer, List.head?_cons,
            if_pos (congrArg some zero)]
        · rcases readDigits ((after.takeWhile isspace).reverse ++ past) d
            (show rest.length + 1 < limit by omega) with ⟨ender, behindIt, isRead⟩
          rw [if_neg zero, if_neg (by simp [digit]), isRead, List.takeWhile_cons_of_pos digit, answer,
            List.head?_cons, if_neg (fun same => zero (Option.some.inj same))]
          rfl
      · have notZero : d ≠ '0' := by
          rintro rfl
          exact digit rfl
        rw [if_neg notZero, if_pos (by simpa using digit), List.takeWhile_cons_of_neg digit,
          if_neg (fun filled => filled rfl)]
        rfl

theorem portRound_none {c : Char} (noToken : portToken c = none) (limit : Nat)
    (stream : InputStream) : portRound limit c stream = some (.goOn stream) := by
  rw [portRound, noToken]

theorem portRound_found {c : Char} {token : Text} (isToken : portToken c = some token) (limit : Nat)
    (past after : Text) :
    portRound limit c ⟨past, token ++ after, true⟩ =
      readPort limit ⟨token.reverse ++ past, after, true⟩ := by
  rw [portRound, isToken]
  simp only [InputStream.expect_append, if_true]

theorem portRound_other {c : Char} {token : Text} (isToken : portToken c = some token) (limit : Nat)
    {stream after : InputStream} (isRead : stream.expect token = (false, after)) :
    portRound limit c stream = some (.goOn after) := by
  rw [portRound, isToken]
  simp only [isRead, if_neg Bool.false_ne_true]

/-- The loop finds the first number behind one of the words. -/
theorem portRun_eq {limit rounds : Nat} (past : Text) {text : Text} (enough : text.length < limit)
    (long : text.length < rounds) :
    portRun limit rounds ⟨past, text, true⟩ = some (answer (firstPort text)) := by
  induction rounds generalizing past text with
  | zero => cases long
  | succ rounds inductionHypothesis =>
      cases text with
      | nil => rfl
      | cons c rest =>
          rw [List.length_cons] at enough long
          have failed : forall past' : Text,
              portRun limit rounds ⟨past', [], false⟩ = some (.ok (-1)) := by
            intro past'
            cases rounds with
            | zero => omega
            | succ rounds => rfl
          rw [portRun, InputStream.get_cons]
          simp only [Bool.true_eq_false, if_false]
          cases isToken : portToken c with
          | none =>
              rw [portRound_none isToken, firstPort, statedPort_of_none isToken]
              exact inductionHypothesis _ (by omega) (by omega)
          | some token =>
              by_cases begins : token <+: rest
              · rcases begins with ⟨after, rfl⟩
                rw [List.length_append] at enough long
                rw [portRound_found isToken, firstPort, statedPort_of_some isToken, firstPort_skip (portToken_inside isToken)]
                have size := List.length_dropWhile_le isspace after
                rw [readPort_eq _ (by omega), ← firstPort_dropWhile after]
                by_cases filled : numberBehind after ≠ []
                · rw [if_pos filled, if_pos filled]
                · rw [if_neg filled, if_neg filled]
                  cases behind : after.dropWhile isspace with
                  | nil => exact failed _
                  | cons d rest =>
                      rw [behind] at size
                      exact inductionHypothesis _ (by omega) (by omega)
              · rw [firstPort, statedPort_of_other isToken begins]
                have known : eofChar ∉ token := by
                  rcases portToken_cases isToken with rfl | rfl <;> decide
                rcases InputStream.expect_other (c :: past) rest begins known with
                  isRead | ⟨short, past', isRead⟩
                · rw [portRound_other isToken limit isRead]
                  exact inductionHypothesis _ (by omega) (by omega)
                · -- Too little is left for a number behind a word.
                  have atMost : token.length ≤ 6 := by
                    rcases portToken_cases isToken with rfl | rfl <;> decide
                  have nothing : firstPort rest = none := by
                    rw [Option.eq_none_iff_forall_ne_some]
                    intro digits found
                    have sixAtLeast := firstPort_length found
                    omega
                  rw [portRound_other isToken limit isRead, nothing]
                  exact failed past'

theorem extractPort_eq {limit : Nat} {text : Text} (enough : text.length < limit) :
    extractPort limit text = some (answer (firstPort text)) :=
  portRun_eq [] enough enough

/-! ## The result -/

/-- The number stands in the text, directly behind one of the words and optional white
space. -/
def StatedAt (text digits : Text) : Prop :=
  Exists fun before : Text => Exists fun c : Char => Exists fun token : Text =>
    Exists fun blanks : Text => Exists fun after : Text =>
      text = before ++ c :: (token ++ (blanks ++ (digits ++ after))) ∧
        portToken c = some token ∧ (forall d, d ∈ blanks -> isspace d = true) ∧
        after.head?.any Char.isDigit = false

theorem firstPort_stated {text digits : Text} (found : firstPort text = some digits) :
    StatedAt text digits ∧ digits ≠ [] ∧ forall d, d ∈ digits -> d.isDigit = true := by
  induction text with
  | nil => cases found
  | cons c rest inductionHypothesis =>
      rw [firstPort] at found
      cases here : statedPort (c :: rest) with
      | none =>
          rw [here] at found
          rcases inductionHypothesis found with ⟨⟨before, letter, token, blanks, after, rfl, others⟩, digital⟩
          exact ⟨⟨c :: before, letter, token, blanks, after, rfl, others⟩, digital⟩
      | some stated =>
          rw [here] at found
          obtain rfl := Option.some.inj found
          cases isToken : portToken c with
          | none =>
              rw [statedPort_of_none isToken] at here
              cases here
          | some token =>
              by_cases begins : token <+: rest
              · rcases begins with ⟨behind, rfl⟩
                rw [statedPort_of_some isToken] at here
                split at here
                · rename_i filled
                  obtain rfl := Option.some.inj here
                  refine ⟨⟨[], c, token, behind.takeWhile isspace,
                    (behind.dropWhile isspace).dropWhile Char.isDigit, ?_, isToken, ?_, ?_⟩, filled, ?_⟩
                  · rw [numberBehind, List.takeWhile_append_dropWhile, List.takeWhile_append_dropWhile]
                    rfl
                  · exact fun d => List.mem_takeWhile_imp
                  · have stops := List.head?_dropWhile_not Char.isDigit (behind.dropWhile isspace)
                    cases ended : ((behind.dropWhile isspace).dropWhile Char.isDigit).head? with
                    | none => rfl
                    | some d =>
                        rw [ended] at stops
                        simpa using stops
                  · exact fun d => List.mem_takeWhile_imp
                · cases here
              · rw [statedPort_of_other isToken begins] at here
                cases here

/-- Only a number that is no `int` makes the function throw. -/
theorem checkPort_digits {digits : Text} (nonempty : digits ≠ [])
    (digital : forall d, d ∈ digits -> d.isDigit = true) :
    checkPort digits =
      if Nat.ofDigitChars 10 digits 0 ≤ 2147483647 then
        .ok (if ValidPort (Nat.ofDigitChars 10 digits 0) then (Nat.ofDigitChars 10 digits 0 : Int) else -1)
      else .error .outOfRange := by
  rw [checkPort, CInt.stoi_digits nonempty digital, CInt.ofInt]
  by_cases small : Nat.ofDigitChars 10 digits 0 ≤ 2147483647
  · have range : -2147483648 ≤ (Nat.ofDigitChars 10 digits 0 : Int) ∧
        (Nat.ofDigitChars 10 digits 0 : Int) ≤ 2147483647 := by omega
    rw [dif_pos range, if_pos small]
  · have range : ¬(-2147483648 ≤ (Nat.ofDigitChars 10 digits 0 : Int) ∧
        (Nat.ofDigitChars 10 digits 0 : Int) ≤ 2147483647) := by omega
    rw [dif_neg range, if_neg small]

/-- The function returns without an exception, and then -1 or a port that the text states,
exactly when the first number in the text begins with a zero or is an `int`. -/
theorem extractPort_returns_iff (text : Text) :
    (Exists fun port : Int =>
      (forall limit, text.length < limit -> extractPort limit text = some (.ok port)) ∧
        (port = -1 ∨ ValidPort port ∧ StatedAt text (Nat.toDigits 10 port.toNat))) <->
      forall digits, firstPort text = some digits ->
        digits.head? = some '0' ∨ Nat.ofDigitChars 10 digits 0 ≤ 2147483647 := by
  cases first : firstPort text with
  | none =>
      refine iff_of_true ⟨-1, fun limit enough => ?_, Or.inl rfl⟩ (fun _ found => by cases found)
      rw [extractPort_eq enough, first]
      rfl
  | some digits =>
      rcases firstPort_stated first with ⟨stated, nonempty, digital⟩
      by_cases zero : digits.head? = some '0'
      · refine iff_of_true ⟨-1, fun limit enough => ?_, Or.inl rfl⟩ ?_
        · rw [extractPort_eq enough, first, answer, if_pos zero]
        · rintro _ ⟨⟩
          exact Or.inl zero
      have checked : forall limit, text.length < limit ->
          extractPort limit text = some (checkPort digits) := by
        intro limit enough
        rw [extractPort_eq enough, first, answer, if_neg zero]
      rw [checkPort_digits nonempty digital] at checked
      by_cases small : Nat.ofDigitChars 10 digits 0 ≤ 2147483647
      · rw [if_pos small] at checked
        refine iff_of_true ⟨_, checked, ?_⟩ ?_
        · split
          · rename_i valid
            refine Or.inr ⟨valid, ?_⟩
            rw [Int.toNat_natCast, CInt.toDigits_ofDigitChars digital nonempty zero]
            exact stated
          · exact Or.inl rfl
        · rintro _ ⟨⟩
          exact Or.inr small
      · rw [if_neg small] at checked
        refine iff_of_false ?_ ?_
        · rintro ⟨port, returns, _⟩
          have thrown := checked _ (Nat.lt_succ_self _)
          rw [returns _ (Nat.lt_succ_self _)] at thrown
          cases thrown
        · intro fits
          rcases fits digits rfl with begins | fit
          · exact zero begins
          · exact small fit

/-- A port number with too many digits. -/
theorem longNumber_throws :
    firstPort "listen 99999999999;".toList = some "99999999999".toList ∧
      extractPort 30 "listen 99999999999;".toList = some (.error .outOfRange) ∧
      ¬ Exists fun port : Int =>
        (forall limit, "listen 99999999999;".toList.length < limit ->
          extractPort limit "listen 99999999999;".toList = some (.ok port)) ∧
        (port = -1 ∨
          ValidPort port ∧ StatedAt "listen 99999999999;".toList (Nat.toDigits 10 port.toNat)) := by
  have thrown : extractPort 30 "listen 99999999999;".toList = some (.error .outOfRange) := by decide
  refine ⟨by decide, thrown, ?_⟩
  rintro ⟨port, returns, _⟩
  rw [returns 30 (by decide)] at thrown
  cases thrown

end Config
end Webserver
