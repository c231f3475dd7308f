import Webserver.Config.Flatten
import Mathlib.Data.List.Chain

namespace Webserver
namespace Config

/-!
# The comments of a text

Only `ParseToken` knows what a comment is: a `#` at which a token may begin, and what
follows it in the line.  `marked` tells the characters of a text apart by this.  A
comment begins behind white space, a semicolon or a brace, or with the text; behind any
other character a `#` belongs to a word.
-/

/-- A character, with whether it belongs to a comment. -/
structure Marked where
  char : Char
  inComment : Bool
deriving DecidableEq

/-- The text with its comments. -/
def full (signs : List Marked) : Text := signs.map Marked.char

/-- The text without its comments. -/
def bare (signs : List Marked) : Text :=
  (signs.filter (fun sign => !sign.inComment)).map Marked.char

/-- The same mark on all characters. -/
def markAll (inComment : Bool) (text : Text) : List Marked :=
  text.map (fun c => ⟨c, inComment⟩)

/-- The characters up to the end of a comment. -/
def inLine (c : Char) : Bool := !(c == '\n' || c == '\r')

/-- The marks that at most the given number of calls of `ParseToken` give. -/
def markedWithin : Nat -> Text -> List Marked
  | 0, text => markAll false text
  | fuel + 1, text =>
      let begun := text.dropWhile isBlank
      if begun.head? = some '#' then
        markAll false (text.takeWhile isBlank) ++
          (markAll true (begun.takeWhile inLine) ++ markedWithin fuel (begun.dropWhile inLine))
      else
        let (token, rest) := parseToken text
        markAll false (text.take (text.length - rest.length)) ++
          if token.last = true then markAll false rest else markedWithin fuel rest

/-- The marks of a text. -/
def marked (text : Text) : List Marked := markedWithin (text.length + 1) text

/-- The text with every comment left out. -/
def uncommented (text : Text) : Text := bare (marked text)

example : uncommented "a 'b #c'; #d\n e#f;# g".toList = "a 'b #c'; \n e#f;".toList := by
  decide +kernel

section Signs

variable (first second : List Marked)

@[simp] theorem full_append : full (first ++ second) = full first ++ full second :=
  List.map_append

@[simp] theorem full_cons (sign : Marked) : full (sign :: first) = sign.char :: full first := rfl

@[simp] theorem full_markAll (inComment : Bool) (text : Text) : full (markAll inComment text) = text := by
  simp [full, markAll, Function.comp_def]

@[simp] theorem bare_append : bare (first ++ second) = bare first ++ bare second := by
  simp [bare]

@[simp] theorem bare_comment (c : Char) : bare (⟨c, true⟩ :: first) = bare first := rfl

@[simp] theorem bare_code (c : Char) : bare (⟨c, false⟩ :: first) = c :: bare first := rfl

theorem bare_markAll_false (text : Text) : bare (markAll false text) = text := by
  rw [bare, List.filter_eq_self.mpr]
  · exact full_markAll false text
  · intro sign member
    rcases List.mem_map.mp member with ⟨c, _, rfl⟩
    rfl

theorem bare_of_code {signs : List Marked} (code : forall sign, sign ∈ signs -> sign.inComment = false) :
    bare signs = full signs := by
  rw [bare, full, List.filter_eq_self.mpr (fun sign member => by simp [code sign member])]

theorem bare_of_comment {signs : List Marked}
    (comment : forall sign, sign ∈ signs -> sign.inComment = true) : bare signs = [] := by
  rw [bare, List.filter_eq_nil_iff.mpr (fun sign member => by simp [comment sign member])]
  rfl

theorem length_bare (signs : List Marked) : (bare signs).length ≤ (full signs).length := by
  rw [bare, full, List.length_map, List.length_map]
  exact List.length_filter_le _ _

theorem full_ne_nil {signs : List Marked} : full signs ≠ [] <-> signs ≠ [] := by
  rw [full, ne_eq, ne_eq, List.map_eq_nil_iff]

/-- The text that is left tells which signs have been read. -/
theorem span_of_full {first span rest rest' : List Marked} (split : span ++ rest = first ++ rest')
    (same : full rest = full rest') : span = first ∧ rest = rest' := by
  have sameLength : rest.length = rest'.length := by
    have lengths := congrArg List.length same
    rwa [full, full, List.length_map, List.length_map] at lengths
  exact List.append_inj' split sameLength

theorem mem_full_of_mem_bare {signs : List Marked} {c : Char} (member : c ∈ bare signs) :
    c ∈ full signs := by
  rcases List.mem_map.mp member with ⟨sign, found, rfl⟩
  exact List.mem_map_of_mem (List.mem_of_mem_filter found)

end Signs

/-- The marks are those of the characters of the text. -/
theorem full_markedWithin (fuel : Nat) (text : Text) : full (markedWithin fuel text) = text := by
  induction fuel generalizing text with
  | zero => exact full_markAll false text
  | succ fuel inductionHypothesis =>
      rw [markedWithin]
      dsimp only
      split
      · rw [full_append, full_append, full_markAll, full_markAll, inductionHypothesis,
          List.takeWhile_append_dropWhile, List.takeWhile_append_dropWhile]
      · have onward : full (if (parseToken text).1.last = true then markAll false (parseToken text).2
            else markedWithin fuel (parseToken text).2) = (parseToken text).2 := by
          split
          · exact full_markAll false _
          · exact inductionHypothesis _
        rw [full_append, full_markAll, onward]
        exact List.suffix_iff_eq_append.mp (parseToken_suffix text).1

@[simp] theorem full_marked (text : Text) : full (marked text) = text := full_markedWithin _ text

/-! ## Where comments begin -/

/-- The characters behind which a token may begin. -/
def separates (c : Char) : Bool := isBlank c || c == ';' || c == '{' || c == '}'

/-- A comment begins with `#` and behind a character that separates tokens. -/
def Follows (before sign : Marked) : Prop :=
  before.inComment = false -> sign.inComment = true -> separates before.char = true ∧ sign.char = '#'

/-- Each comment of the marks begins so. -/
def Delimited (signs : List Marked) : Prop := signs.IsChain Follows

theorem Delimited.suffix {first second : List Marked} (delimited : Delimited (first ++ second)) :
    Delimited second :=
  (List.isChain_append.mp delimited).2.1

theorem Delimited.tail {sign : Marked} {signs : List Marked} (delimited : Delimited (sign :: signs)) :
    Delimited signs :=
  (List.isChain_cons.mp delimited).2

theorem Delimited.cons {sign : Marked} {signs : List Marked}
    (follows : forall next, signs.head? = some next -> Follows sign next)
    (delimited : Delimited signs) : Delimited (sign :: signs) :=
  List.isChain_cons.mpr ⟨fun next isHead => follows next isHead, delimited⟩

theorem Delimited.append {first second : List Marked} (delimited : Delimited first)
    (delimitedToo : Delimited second)
    (joins : forall last, first.getLast? = some last -> forall next, second.head? = some next ->
      Follows last next) : Delimited (first ++ second) :=
  List.isChain_append.mpr ⟨delimited, delimitedToo, joins⟩

theorem delimited_markAll (inComment : Bool) (text : Text) : Delimited (markAll inComment text) := by
  induction text with
  | nil => exact List.isChain_nil
  | cons c rest inductionHypothesis =>
      refine Delimited.cons (fun next isHead code comment => ?_) inductionHypothesis
      rcases List.mem_map.mp (List.mem_of_mem_head? isHead) with ⟨d, _, rfl⟩
      have same : inComment = false := code
      rw [same] at comment
      cases comment

/-- A quoted token ends in front of one of the characters that may follow it. -/
theorem quotedState_follow {quote : Char} {reversed text : Text}
    (isNormal : (quotedState quote reversed text).1.type = .normal) :
    (quotedState quote reversed text).2.head?.any endsQuoted = true := by
  fun_induction quotedState quote reversed text with
  | case1 reversed => cases isNormal
  | case2 reversed rest ends => exact ends
  | case3 rest goesOn front inductionHypothesis => exact inductionHypothesis isNormal
  | case4 reversed rest goesOn unescaped => cases isNormal
  | case5 reversed c rest notQuote pair inductionHypothesis => exact inductionHypothesis isNormal
  | case6 reversed c rest notQuote notPair inductionHypothesis => exact inductionHypothesis isNormal

/-- A token that is not a comment has a separator in front of a `#` that it leaves. -/
theorem parseToken_beforeHash {text : Text} (goesOn : (parseToken text).1.last = false)
    (notComment : (text.dropWhile isBlank).head? ≠ some '#')
    (hash : (parseToken text).2.head? = some '#') :
    Exists fun front : Text => Exists fun c : Char =>
      text = front ++ c :: (parseToken text).2 ∧ separates c = true := by
  have unquoted : forall quote rest, (quotedState quote [quote] rest).1.last = false ->
      (quotedState quote [quote] rest).2.head? ≠ some '#' := by
    intro quote rest goesOn hash
    have isNormal := (quotedState_type quote [quote] rest).resolve_right
      (fun isError => by simp [Token.last, isError] at goesOn)
    have follow := quotedState_follow isNormal
    rw [hash] at follow
    cases follow
  fun_induction parseToken text with
  | case1 => cases goesOn
  | case2 rest => exact ⟨[], _, rfl, rfl⟩
  | case3 rest => exact ⟨[], _, rfl, rfl⟩
  | case4 rest => exact absurd rfl notComment
  | case5 rest => exact absurd hash (unquoted _ _ goesOn)
  | case6 rest => exact absurd hash (unquoted _ _ goesOn)
  | case7 rest => exact ⟨[], _, rfl, rfl⟩
  | case8 c rest _ _ _ _ _ _ blank inductionHypothesis =>
      rw [List.dropWhile_cons_of_pos blank] at notComment
      rcases inductionHypothesis goesOn notComment hash with ⟨front, separator, split, separated⟩
      exact ⟨c :: front, separator, by rw [List.cons_append, ← split], separated⟩
  | case9 c rest =>
      rcases normalState_split [c] rest with ⟨_, _, _, _, ⟨_, ender, after, left, ends⟩ | ⟨isEnd, _⟩⟩
      · rw [left] at hash
        obtain rfl : ender = '#' := Option.some.inj hash
        cases ends
      · simp [Token.last, isEnd] at goesOn

/-- The first mark is that of a comment only at a `#`. -/
theorem head_markedWithin (fuel : Nat) {text : Text} {sign : Marked}
    (isHead : (markedWithin fuel text).head? = some sign) (comment : sign.inComment = true) :
    text.head? = some '#' ∧ sign.char = '#' := by
  have here : text.head? = some sign.char := by
    conv_lhs => rw [← full_markedWithin fuel text]
    rw [full, List.head?_map, isHead]
    rfl
  have code : forall {first : Text} {second : List Marked}, first ≠ [] ->
      (markAll false first ++ second).head? ≠ some sign := by
    rintro first second nonempty isHead
    cases first with
    | nil => exact nonempty rfl
    | cons c first =>
        obtain rfl : Marked.mk c false = sign := Option.some.inj isHead
        cases comment
  suffices hash : text.head? = some '#' from
    ⟨hash, Option.some.inj (here.symm.trans hash)⟩
  cases fuel with
  | zero =>
      rw [markedWithin] at isHead
      rcases List.mem_map.mp (List.mem_of_mem_head? isHead) with ⟨c, _, rfl⟩
      cases comment
  | succ fuel =>
      rw [markedWithin] at isHead
      dsimp only at isHead
      split at isHead
      · rename_i hash
        by_cases blanks : text.takeWhile isBlank = []
        · rw [← List.takeWhile_append_dropWhile (p := isBlank) (l := text), blanks]
          exact hash
        · exact absurd isHead (code blanks)
      · by_cases taken : text.take (text.length - (parseToken text).2.length) = []
        · rw [taken] at isHead
          change (if (parseToken text).1.last = true then markAll false (parseToken text).2
            else markedWithin fuel (parseToken text).2).head? = some sign at isHead
          split at isHead
          · rcases List.mem_map.mp (List.mem_of_mem_head? isHead) with ⟨c, _, rfl⟩
            cases comment
          · rename_i goesOn
            have progress := (parseToken_length text).resolve_left (by
              intro ended
              exact goesOn (by simp [Token.last, ended]))
            rw [List.take_eq_nil_iff] at taken
            rcases taken with nothing | empty
            · omega
            · rw [empty] at progress
              cases progress
        · exact absurd isHead (code taken)

/-- Each comment of a text begins with `#` behind a separator. -/
theorem delimited_markedWithin (fuel : Nat) (text : Text) : Delimited (markedWithin fuel text) := by
  induction fuel generalizing text with
  | zero => exact delimited_markAll false text
  | succ fuel inductionHypothesis =>
      rw [markedWithin]
      dsimp only
      split
      · rename_i hash
        refine Delimited.append (delimited_markAll false _)
          (Delimited.append (delimited_markAll true _) (inductionHypothesis _) ?_) ?_
        · intro last isLast next _ code
          rcases List.mem_map.mp (List.mem_of_getLast? isLast) with ⟨c, _, rfl⟩
          cases code
        · intro last isLast next isHead _ comment
          rcases List.mem_map.mp (List.mem_of_getLast? isLast) with ⟨c, blank, rfl⟩
          refine ⟨by simp [separates, List.mem_takeWhile_imp blank], ?_⟩
          rcases List.head?_eq_some_iff.mp hash with ⟨others, begun⟩
          rw [begun] at isHead
          exact (congrArg Marked.char (Option.some.inj isHead)).symm
      · rename_i notComment
        split
        · exact Delimited.append (delimited_markAll false _) (delimited_markAll false _)
            (fun last _ next isHead _ comment => by
              rcases List.mem_map.mp (List.mem_of_mem_head? isHead) with ⟨c, _, rfl⟩
              cases comment)
        · rename_i goesOn
          refine Delimited.append (delimited_markAll false _) (inductionHypothesis _) ?_
          intro last isLast next isHead _ comment
          rcases head_markedWithin fuel isHead comment with ⟨hash, isHash⟩
          refine ⟨?_, isHash⟩
          rcases parseToken_beforeHash (by simpa using goesOn) notComment hash with
            ⟨front, separator, split, separated⟩
          have taken : text.take (text.length - (parseToken text).2.length) = front ++ [separator] := by
            have size : text.length - (parseToken text).2.length = (front ++ [separator]).length := by
              have whole := congrArg List.length split
              rw [List.length_append, List.length_cons] at whole
              rw [List.length_append, List.length_singleton]
              omega
            have whole : text = (front ++ [separator]) ++ (parseToken text).2 := by
              rw [List.append_assoc]
              exact split
            rw [size]
            conv_lhs => rw [whole]
            exact List.take_left
          rw [taken, markAll, List.map_append, List.map_singleton, List.getLast?_concat] at isLast
          rw [← Option.some.inj isLast]
          exact separated

theorem delimited_marked (text : Text) : Delimited (marked text) := delimited_markedWithin _ text

/-! ## Reading on outside the comments -/

/-- The signs do not go on with a comment that has begun before. -/
structure Outside (signs : List Marked) : Prop where
  delimited : Delimited signs
  begins : forall sign, signs.head? = some sign -> sign.inComment = true -> sign.char = '#'

/-- No sign belongs to a comment. -/
def Code (signs : List Marked) : Prop := forall sign, sign ∈ signs -> sign.inComment = false

/-- No comment begins here. -/
def AtCode (signs : List Marked) : Prop :=
  forall sign, signs.head? = some sign -> sign.inComment = false

theorem code_markAll (text : Text) : Code (markAll false text) := by
  intro sign member
  rcases List.mem_map.mp member with ⟨c, _, rfl⟩
  rfl

theorem Code.append_iff {first second : List Marked} : Code (first ++ second) <-> Code first ∧ Code second := by
  simp only [Code, List.mem_append, or_imp, forall_and]

theorem bare_ne_nil {signs : List Marked} (atCode : AtCode signs) (nonempty : signs ≠ []) :
    bare signs ≠ [] := by
  cases signs with
  | nil => exact absurd rfl nonempty
  | cons sign signs =>
      rcases sign with ⟨c, inComment⟩
      obtain rfl : inComment = false := atCode _ rfl
      exact List.cons_ne_nil _ _

theorem outside_of_code {c : Char} {signs : List Marked} (delimited : Delimited (⟨c, false⟩ :: signs)) :
    Outside signs :=
  ⟨delimited.tail, fun sign isHead comment =>
    ((List.isChain_cons.mp delimited).1 sign isHead rfl comment).2⟩

theorem Outside.behind {first second : List Marked} (outside : Outside (first ++ second))
    (code : Code first) : Outside second := by
  induction first with
  | nil => exact outside
  | cons sign first inductionHypothesis =>
      rcases sign with ⟨c, inComment⟩
      obtain rfl : inComment = false := code _ List.mem_cons_self
      exact inductionHypothesis (outside_of_code outside.delimited)
        (fun other member => code other (List.mem_cons_of_mem _ member))

/-- The signs up to the first that fails the test. -/
def within (test : Char -> Bool) (signs : List Marked) : List Marked :=
  signs.takeWhile (fun sign => test sign.char)

/-- The signs from the first that fails the test. -/
def beyond (test : Char -> Bool) (signs : List Marked) : List Marked :=
  signs.dropWhile (fun sign => test sign.char)

section Spans

variable {test : Char -> Bool} {signs : List Marked}

theorem within_append_beyond (test : Char -> Bool) (signs : List Marked) :
    within test signs ++ beyond test signs = signs :=
  List.takeWhile_append_dropWhile

theorem takeWhile_full (test : Char -> Bool) (signs : List Marked) :
    (full signs).takeWhile test = full (within test signs) := by
  rw [full, full, within, List.takeWhile_map]
  rfl

theorem dropWhile_full (test : Char -> Bool) (signs : List Marked) :
    (full signs).dropWhile test = full (beyond test signs) := by
  rw [full, full, beyond, List.dropWhile_map]
  rfl

theorem beyond_head {sign : Marked} (isHead : (beyond test signs).head? = some sign) :
    test sign.char = false := by
  have failed := List.head?_dropWhile_not (fun sign : Marked => test sign.char) signs
  rw [beyond] at isHead
  rw [isHead] at failed
  simpa using failed

theorem atCode_of_within (code : Code (within test signs)) (nonempty : within test signs ≠ []) :
    AtCode signs := by
  intro sign isHead
  apply code
  rw [← within_append_beyond test signs, List.head?_append_of_ne_nil _ nonempty] at isHead
  exact List.mem_of_mem_head? isHead

/-- Where nothing is read the signs behind it are those here. -/
theorem atCode_of_beyond {test : Char -> Bool} {signs : List Marked} (code : Code (within test signs))
    (next : AtCode (beyond test signs)) : AtCode signs := by
  by_cases nothing : within test signs = []
  · have same := within_append_beyond test signs
    rw [nothing, List.nil_append] at same
    exact same ▸ next
  · exact atCode_of_within code nothing

/-- Where neither what is read nor what follows it belongs to a comment, the same is read
without the comments. -/
theorem spans_bare (code : Code (within test signs)) (next : AtCode (beyond test signs)) :
    (bare signs).takeWhile test = full (within test signs) ∧
      (bare signs).dropWhile test = bare (beyond test signs) := by
  have parts : bare signs = full (within test signs) ++ bare (beyond test signs) := by
    conv_lhs => rw [← within_append_beyond test signs, bare_append, bare_of_code code]
  have passes : forall c, c ∈ full (within test signs) -> test c = true := by
    intro c member
    rw [← takeWhile_full] at member
    exact List.mem_takeWhile_imp member
  have stops : (bare (beyond test signs)).takeWhile test = [] ∧
      (bare (beyond test signs)).dropWhile test = bare (beyond test signs) := by
    cases rest : beyond test signs with
    | nil => exact ⟨rfl, rfl⟩
    | cons sign rest' =>
        rcases sign with ⟨c, inComment⟩
        rw [rest] at next
        obtain rfl : inComment = false := next _ rfl
        have fails : test c = false := beyond_head (by rw [rest]; rfl)
        rw [bare_code]
        exact ⟨List.takeWhile_cons_of_neg (by simp [fails]), List.dropWhile_cons_of_neg (by simp [fails])⟩
  rw [parts, List.takeWhile_append_of_pos passes, List.dropWhile_append_of_pos passes, stops.1, stops.2,
    List.append_nil]
  exact ⟨rfl, rfl⟩

/-- Characters other than `#` are read up to a comment. -/
theorem Outside.code_within (outside : Outside signs) (stopsAtHash : test '#' = false) :
    Code (within test signs) := by
  induction signs with
  | nil => exact fun sign member => by cases member
  | cons sign signs inductionHypothesis =>
      rcases sign with ⟨c, inComment⟩
      by_cases passes : test c = true
      · have code : inComment = false := by
          by_contra comment
          have hash := outside.begins ⟨c, inComment⟩ rfl (by simpa using comment)
          rw [show c = '#' from hash, stopsAtHash] at passes
          cases passes
        subst code
        have unfolded : within test (⟨c, false⟩ :: signs) = ⟨c, false⟩ :: within test signs :=
          List.takeWhile_cons_of_pos passes
        rw [unfolded]
        exact List.forall_mem_cons.mpr ⟨rfl, inductionHypothesis (outside_of_code outside.delimited)⟩
      · have unfolded : within test (⟨c, inComment⟩ :: signs) = [] :=
          List.takeWhile_cons_of_neg passes
        rw [unfolded]
        exact fun sign member => by cases member

theorem Outside.afterSpan (outside : Outside signs) (code : Code (within test signs)) :
    Outside (beyond test signs) := by
  rw [← within_append_beyond test signs] at outside
  exact outside.behind code

/-- What a `#` does not end is not ended by a comment. -/
theorem Outside.atCode_of_hash (outside : Outside signs) (code : Code (within test signs))
    (passesHash : test '#' = true) : AtCode (beyond test signs) := by
  intro sign isHead
  by_contra comment
  have hash := (outside.afterSpan code).begins sign isHead (by simpa using comment)
  have fails := beyond_head isHead
  rw [hash, passesHash] at fails
  cases fails

/-- Behind a character that separates nothing there is no comment. -/
theorem Outside.atCode_of_plain (outside : Outside signs) (code : Code (within test signs))
    (plain : forall c, test c = true -> separates c = false) (nonempty : within test signs ≠ []) :
    AtCode (beyond test signs) := by
  intro sign isHead
  by_contra comment
  have joined : Delimited (within test signs ++ beyond test signs) := by
    rw [within_append_beyond]
    exact outside.delimited
  have isLast := List.getLast?_eq_some_getLast nonempty
  have follows := (List.isChain_append.mp joined).2.2 _ isLast _ isHead
  have member := List.getLast_mem nonempty
  have separated := (follows (code _ member) (by simpa using comment)).1
  have passes : test ((within test signs).getLast nonempty).char = true := by
    have inside := List.mem_takeWhile_imp member
    exact inside
  rw [plain _ passes] at separated
  cases separated

/-- A word without `#` is not read from a comment. -/
theorem Outside.code_of_word (outside : Outside signs) {word : Text} (noHash : '#' ∉ word)
    (begins : word <+: full signs) : Exists fun rest : List Marked => signs = markAll false word ++ rest := by
  induction word generalizing signs with
  | nil => exact ⟨signs, rfl⟩
  | cons c word inductionHypothesis =>
      cases signs with
      | nil => exact absurd begins (by simp [full])
      | cons sign signs =>
          rcases sign with ⟨d, inComment⟩
          rw [full_cons, List.cons_prefix_cons] at begins
          rw [List.mem_cons, not_or] at noHash
          obtain rfl : c = d := begins.1
          have code : inComment = false := by
            by_contra comment
            exact noHash.1 (outside.begins ⟨c, inComment⟩ rfl (by simpa using comment)).symm
          subst code
          rcases inductionHypothesis (outside_of_code outside.delimited) noHash.2 begins.2 with ⟨rest, same⟩
          exact ⟨rest, by rw [same]; rfl⟩

/-- Nor is a word read across a comment, if nothing but its last character separates. -/
theorem code_of_bareWord {c : Char} {word : Text} (delimited : Delimited (⟨c, false⟩ :: signs))
    (plain : forall d, d ∈ (c :: word).dropLast -> separates d = false) (begins : word <+: bare signs) :
    Exists fun rest : List Marked => signs = markAll false word ++ rest := by
  induction word generalizing c signs with
  | nil => exact ⟨signs, rfl⟩
  | cons d word inductionHypothesis =>
      rw [List.dropLast_cons_of_ne_nil (List.cons_ne_nil _ _), List.forall_mem_cons] at plain
      cases signs with
      | nil => exact absurd begins (by simp [bare])
      | cons sign signs =>
          rcases sign with ⟨e, inComment⟩
          have code : inComment = false := by
            by_contra comment
            have separated := ((List.isChain_cons.mp delimited).1 ⟨e, inComment⟩ rfl rfl
              (by simpa using comment)).1
            rw [plain.1] at separated
            cases separated
          subst code
          rw [bare_code, List.cons_prefix_cons] at begins
          obtain rfl : d = e := begins.1
          rcases inductionHypothesis delimited.tail plain.2 begins.2 with ⟨rest, same⟩
          exact ⟨rest, by rw [same]; rfl⟩

/-- A keyword is not found across a comment either. -/
theorem differs_bare {c : Char} {word : Text} {signs : List Marked}
    (delimited : Delimited (⟨c, false⟩ :: signs))
    (plain : forall d, d ∈ (c :: word).dropLast -> separates d = false)
    (differs : ¬ word <+: full signs) : ¬ word <+: bare signs := by
  intro begins
  rcases code_of_bareWord delimited plain begins with ⟨rest, rfl⟩
  rw [full_append, full_markAll] at differs
  exact differs (List.prefix_append _ _)

end Spans

end Config
end Webserver
