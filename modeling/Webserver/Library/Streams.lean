import Mathlib.Data.List.TakeWhile
import Mathlib.Data.Char

namespace Webserver
/-!
# Input streams

A stream over the characters of a file, with the operations `get` and `unget` of
a C++ `istream`.  A stream that has failed stays failed: it gives no more
characters and takes none back.  Reading past the end makes a stream fail, and
the value read is the end-of-file mark converted to a character.
-/

/-- A stream between what was taken from it, newest first, and what is left. -/
structure InputStream where
  past : List Char
  rest : List Char
  good : Bool
deriving DecidableEq

/-- The character that `EOF` becomes in a `char`. -/
def eofChar : Char := 'ÿ'

namespace InputStream

/-- A stream that has just been opened. -/
def opened (text : List Char) : InputStream := ⟨[], text, true⟩

def get : InputStream -> Char × InputStream
  | ⟨past, c :: rest, true⟩ => (c, ⟨c :: past, rest, true⟩)
  | ⟨past, rest, _⟩ => (eofChar, ⟨past, rest, false⟩)

def unget : InputStream -> InputStream
  | ⟨c :: past, rest, true⟩ => ⟨past, c :: rest, true⟩
  | ⟨past, rest, _⟩ => ⟨past, rest, false⟩

/-- The characters of a number of `get`s. -/
def getMany : Nat -> InputStream -> List Char × InputStream
  | 0, stream => ([], stream)
  | count + 1, stream =>
      let (c, next) := stream.get
      let (text, last) := next.getMany count
      (c :: text, last)

def ungetMany : Nat -> InputStream -> InputStream
  | 0, stream => stream
  | count + 1, stream => stream.unget.ungetMany count

/-- Read as many characters as the expected text has, and put them back if they
differ from it. -/
def expect (text : List Char) (stream : InputStream) : Bool × InputStream :=
  let (read, next) := stream.getMany text.length
  if read = text then (true, next) else (false, next.ungetMany text.length)

/-- `while (test(c)) { name = add(name, c); c = get(); }`.  The result is `none`
when the loop takes more rounds than the limit. -/
def whileChar (test : Char -> Bool) (add : List Char -> Char -> List Char) :
    Nat -> Char -> List Char -> InputStream -> Option (Char × List Char × InputStream)
  | 0, _, _, _ => none
  | limit + 1, c, name, stream =>
      if test c = true then
        let (next, after) := stream.get
        whileChar test add limit next (add name c) after
      else some (c, name, stream)

/-- The same loop after a first `get`. -/
def getWhile (test : Char -> Bool) (add : List Char -> Char -> List Char) (limit : Nat)
    (name : List Char) (stream : InputStream) : Option (Char × List Char × InputStream) :=
  whileChar test add limit stream.get.1 name stream.get.2

/-- Append a character to a name. -/
def append (name : List Char) (c : Char) : List Char := name ++ [c]

/-- Forget a name. -/
def clear (_ : List Char) (_ : Char) : List Char := []

variable (past rest : List Char)

@[simp] theorem get_cons (c : Char) : get ⟨past, c :: rest, true⟩ = (c, ⟨c :: past, rest, true⟩) :=
  rfl

@[simp] theorem get_nil : get ⟨past, [], true⟩ = (eofChar, ⟨past, [], false⟩) := rfl

@[simp] theorem get_failed : get ⟨past, rest, false⟩ = (eofChar, ⟨past, rest, false⟩) := by
  cases rest <;> rfl

@[simp] theorem unget_cons (c : Char) : unget ⟨c :: past, rest, true⟩ = ⟨past, c :: rest, true⟩ :=
  rfl

@[simp] theorem unget_failed : unget ⟨past, rest, false⟩ = ⟨past, rest, false⟩ := by
  cases past <;> rfl

theorem getMany_failed (count : Nat) :
    (getMany count ⟨past, rest, false⟩).2 = ⟨past, rest, false⟩ := by
  induction count with
  | zero => rfl
  | succ count inductionHypothesis => simpa [getMany] using inductionHypothesis

theorem ungetMany_failed (count : Nat) :
    ungetMany count ⟨past, rest, false⟩ = ⟨past, rest, false⟩ := by
  induction count with
  | zero => rfl
  | succ count inductionHypothesis => rw [ungetMany, unget_failed, inductionHypothesis]

/-- Text that is there is read. -/
theorem getMany_append (text : List Char) :
    getMany text.length ⟨past, text ++ rest, true⟩ =
      (text, ⟨text.reverse ++ past, rest, true⟩) := by
  induction text generalizing past with
  | nil => rfl
  | cons c text inductionHypothesis =>
      rw [List.length_cons, getMany, List.cons_append, get_cons]
      simp [inductionHypothesis]

theorem ungetMany_append (text : List Char) :
    ungetMany text.length ⟨text ++ past, rest, true⟩ = ⟨past, text.reverse ++ rest, true⟩ := by
  induction text generalizing rest with
  | nil => rfl
  | cons c text inductionHypothesis =>
      rw [List.length_cons, ungetMany, List.cons_append, unget_cons, inductionHypothesis]
      simp

/-- Where too little text is left, the stream fails. -/
theorem getMany_short {count : Nat} (short : rest.length < count) :
    Exists fun text : List Char =>
      getMany count ⟨past, rest, true⟩ = (rest ++ eofChar :: text, ⟨rest.reverse ++ past, [], false⟩) := by
  induction rest generalizing past count with
  | nil =>
      cases count with
      | zero => cases short
      | succ count =>
          refine ⟨(getMany count ⟨past, [], false⟩).1, ?_⟩
          rw [getMany, get_nil]
          simp [getMany_failed]
  | cons c rest inductionHypothesis =>
      cases count with
      | zero => cases short
      | succ count =>
          rcases inductionHypothesis (c :: past) (Nat.lt_of_succ_lt_succ short) with ⟨text, isRead⟩
          refine ⟨text, ?_⟩
          rw [getMany, get_cons]
          simp [isRead]

/-- The expected text is read. -/
theorem expect_append (text : List Char) :
    expect text ⟨past, text ++ rest, true⟩ = (true, ⟨text.reverse ++ past, rest, true⟩) := by
  rw [expect, getMany_append]
  simp

/-- Where there is too little text the stream fails. -/
theorem expect_short {text : List Char} (short : rest.length < text.length)
    (known : eofChar ∉ text) :
    Exists fun past' : List Char =>
      expect text ⟨past, rest, true⟩ = (false, ⟨past', [], false⟩) := by
  rcases getMany_short past rest short with ⟨more, isRead⟩
  refine ⟨rest.reverse ++ past, ?_⟩
  have different : rest ++ eofChar :: more ≠ text := by
    rintro rfl
    simp at known
  rw [expect, isRead]
  simp only [if_neg different, ungetMany_failed]

/-- Other text is put back. -/
theorem expect_putBack {text : List Char} (long : text.length ≤ rest.length)
    (differs : ¬text <+: rest) : expect text ⟨past, rest, true⟩ = (false, ⟨past, rest, true⟩) := by
  have size : (rest.take text.length).length = text.length := by
    rw [List.length_take]
    omega
  have isRead := getMany_append past (rest.drop text.length) (rest.take text.length)
  rw [size, List.take_append_drop] at isRead
  have different : rest.take text.length ≠ text := fun same =>
    differs (same ▸ List.take_prefix text.length rest)
  have restored := ungetMany_append past (rest.drop text.length) (rest.take text.length).reverse
  rw [List.length_reverse, size, List.reverse_reverse, List.take_append_drop] at restored
  rw [expect, isRead]
  simp only [if_neg different, restored]

theorem expect_other {text : List Char} (differs : ¬text <+: rest) (known : eofChar ∉ text) :
    expect text ⟨past, rest, true⟩ = (false, ⟨past, rest, true⟩) ∨
      rest.length < text.length ∧ Exists fun past' : List Char =>
        expect text ⟨past, rest, true⟩ = (false, ⟨past', [], false⟩) := by
  by_cases short : rest.length < text.length
  · exact Or.inr ⟨short, expect_short past rest short known⟩
  · exact Or.inl (expect_putBack past rest (Nat.le_of_not_lt short) differs)

theorem foldl_append (name word : List Char) : word.foldl append name = name ++ word := by
  induction word generalizing name with
  | nil => simp
  | cons c word inductionHypothesis => simp [append, inductionHypothesis]

theorem foldl_clear (name : List Char) {word : List Char} (nonempty : word ≠ []) :
    word.foldl clear name = [] := by
  induction word generalizing name with
  | nil => exact absurd rfl nonempty
  | cons c word inductionHypothesis =>
      cases word with
      | nil => rfl
      | cons d word => exact inductionHypothesis _ (List.cons_ne_nil _ _)

theorem foldl_clear_nil (word : List Char) : word.foldl clear [] = [] := by
  cases word with
  | nil => rfl
  | cons c word => exact foldl_clear [] (List.cons_ne_nil c word)

/-- A loop over characters ends at the first one that fails the test. -/
theorem whileChar_append (test : Char -> Bool) (add : List Char -> Char -> List Char)
    {word : List Char} (inside : forall d, d ∈ word -> test d = true) {ender : Char}
    (ends : test ender = false) {limit : Nat} (enough : word.length < limit)
    (name rest : List Char) {c : Char} {after : List Char}
    (textIs : c :: rest = word ++ ender :: after) :
    whileChar test add limit c name ⟨c :: past, rest, true⟩ =
      some (ender, word.foldl add name, ⟨ender :: (word.reverse ++ past), after, true⟩) := by
  induction word generalizing limit past name c rest with
  | nil =>
      rcases List.cons.inj textIs with ⟨rfl, rfl⟩
      cases limit with
      | zero => cases enough
      | succ limit => simp [whileChar, ends]
  | cons d word inductionHypothesis =>
      rw [List.cons_append] at textIs
      rcases List.cons.inj textIs with ⟨rfl, rfl⟩
      cases limit with
      | zero => cases enough
      | succ limit =>
          obtain ⟨next, others, nextIs⟩ : Exists fun next : Char => Exists fun others : List Char =>
              word ++ ender :: after = next :: others := by
            cases word with
            | nil => exact ⟨ender, after, rfl⟩
            | cons next word => exact ⟨next, word ++ ender :: after, rfl⟩
          rw [whileChar, if_pos (inside c List.mem_cons_self), nextIs, get_cons]
          have readsOn := inductionHypothesis (c :: past)
            (fun d later => inside d (List.mem_cons_of_mem c later)) (Nat.lt_of_succ_lt_succ enough)
            (add name c) others nextIs.symm
          simpa using readsOn

theorem getWhile_append (test : Char -> Bool) (add : List Char -> Char -> List Char)
    {word : List Char} (inside : forall d, d ∈ word -> test d = true) {ender : Char}
    (ends : test ender = false) {limit : Nat} (enough : word.length < limit)
    (name after : List Char) :
    getWhile test add limit name ⟨past, word ++ ender :: after, true⟩ =
      some (ender, word.foldl add name, ⟨ender :: (word.reverse ++ past), after, true⟩) := by
  cases word with
  | nil => exact whileChar_append past test add inside ends enough name _ rfl
  | cons c word => exact whileChar_append past test add inside ends enough name _ rfl

/-! ## Loops that come to the end of the stream -/

/-- A loop that does not go on with the end-of-file mark ends at the end of the stream. -/
theorem whileChar_toEnd (test : Char -> Bool) (add : List Char -> Char -> List Char)
    (stops : test eofChar = false) {c : Char} (inside : forall d, d ∈ c :: rest -> test d = true)
    {limit : Nat} (enough : rest.length + 1 < limit) (name : List Char) :
    whileChar test add limit c name ⟨past, rest, true⟩ =
      some (eofChar, (c :: rest).foldl add name, ⟨rest.reverse ++ past, [], false⟩) := by
  induction rest generalizing limit past name c with
  | nil =>
      rcases limit with _ | _ | limit
      · cases enough
      · omega
      · simp [whileChar, inside c List.mem_cons_self, stops]
  | cons d rest inductionHypothesis =>
      cases limit with
      | zero => cases enough
      | succ limit =>
          rw [whileChar, if_pos (inside c List.mem_cons_self), get_cons]
          have readsOn := inductionHypothesis (c := d) (d :: past)
            (fun e later => inside e (List.mem_cons_of_mem c later)) (Nat.lt_of_succ_lt_succ enough)
            (add name c)
          simpa using readsOn

theorem getWhile_toEnd (test : Char -> Bool) (add : List Char -> Char -> List Char)
    (stops : test eofChar = false) {word : List Char} (inside : forall d, d ∈ word -> test d = true)
    {limit : Nat} (enough : word.length < limit) (name : List Char) :
    getWhile test add limit name ⟨past, word, true⟩ =
      some (eofChar, word.foldl add name, ⟨word.reverse ++ past, [], false⟩) := by
  cases word with
  | nil =>
      cases limit with
      | zero => cases enough
      | succ limit => simp [getWhile, whileChar, stops]
  | cons c word =>
      rw [getWhile, get_cons, whileChar_toEnd (c :: past) word test add stops inside enough name]
      simp

/-- A loop that goes on with the end-of-file mark never ends behind the end of the
stream. -/
theorem whileChar_failed (test : Char -> Bool) (add : List Char -> Char -> List Char)
    (goesOn : test eofChar = true) (limit : Nat) (name : List Char) :
    whileChar test add limit eofChar name ⟨past, rest, false⟩ = none := by
  induction limit generalizing name with
  | zero => rfl
  | succ limit inductionHypothesis =>
      rw [whileChar, if_pos goesOn, get_failed]
      exact inductionHypothesis _

theorem whileChar_hangs (test : Char -> Bool) (add : List Char -> Char -> List Char)
    (goesOn : test eofChar = true) {c : Char} (inside : forall d, d ∈ c :: rest -> test d = true)
    (limit : Nat) (name : List Char) :
    whileChar test add limit c name ⟨past, rest, true⟩ = none := by
  induction rest generalizing limit past name c with
  | nil =>
      cases limit with
      | zero => rfl
      | succ limit =>
          rw [whileChar, if_pos (inside c List.mem_cons_self), get_nil]
          exact whileChar_failed past [] test add goesOn limit _
  | cons d rest inductionHypothesis =>
      cases limit with
      | zero => rfl
      | succ limit =>
          rw [whileChar, if_pos (inside c List.mem_cons_self), get_cons]
          exact inductionHypothesis (d :: past) (fun e later => inside e (List.mem_cons_of_mem c later))
            limit _

/-- A larger limit changes nothing. -/
theorem whileChar_mono (test : Char -> Bool) (add : List Char -> Char -> List Char)
    {limit limit' : Nat} (atLeast : limit ≤ limit') {c : Char} {name : List Char}
    {stream : InputStream} {found : Char × List Char × InputStream}
    (isRead : whileChar test add limit c name stream = some found) :
    whileChar test add limit' c name stream = some found := by
  induction limit generalizing limit' c name stream with
  | zero => cases isRead
  | succ limit inductionHypothesis =>
      cases limit' with
      | zero => cases atLeast
      | succ limit' =>
          rw [whileChar] at isRead ⊢
          split at isRead
          · rename_i inside
            rw [if_pos inside]
            exact inductionHypothesis (Nat.le_of_succ_le_succ atLeast) isRead
          · rename_i outside
            rw [if_neg outside]
            exact isRead

/-- What a chain of loops finds it finds with larger limits. -/
theorem bind_mono {α β : Type} {first first' : Option α} {next next' : α -> Option β} {result : β}
    (firstMono : forall found, first = some found -> first' = some found)
    (nextMono : forall found, next found = some result -> next' found = some result)
    (isRead : first.bind next = some result) : first'.bind next' = some result := by
  rcases Option.bind_eq_some_iff.mp isRead with ⟨found, begins, ends⟩
  rw [firstMono found begins]
  exact nextMono found ends

/-! ## A loop after a first `get` -/

section GetWhile

variable {test : Char -> Bool} {text : List Char} {ender : Char} {after : List Char}

theorem not_of_dropWhile (behind : text.dropWhile test = ender :: after) : test ender = false := by
  have stops := List.head?_dropWhile_not test text
  rw [behind] at stops
  simpa using stops

theorem all_of_dropWhile (behind : text.dropWhile test = []) :
    forall d, d ∈ text -> test d = true :=
  List.dropWhile_eq_nil_iff.mp behind

/-- The loop stops at a character that fails the test. -/
theorem getWhile_found (add : List Char -> Char -> List Char)
    (behind : text.dropWhile test = ender :: after) {limit : Nat} (enough : text.length < limit)
    (name : List Char) :
    getWhile test add limit name ⟨past, text, true⟩ =
      some (ender, (text.takeWhile test).foldl add name,
        ⟨ender :: ((text.takeWhile test).reverse ++ past), after, true⟩) := by
  have split := (List.takeWhile_append_dropWhile (p := test) (l := text)).symm
  rw [behind] at split
  have size := congrArg List.length split
  rw [List.length_append] at size
  have isRead := getWhile_append past test add (fun d => List.mem_takeWhile_imp)
    (not_of_dropWhile behind) (show (text.takeWhile test).length < limit by omega) name after
  rw [← split] at isRead
  exact isRead

/-- The loop stops at the end of the stream. -/
theorem getWhile_ended (add : List Char -> Char -> List Char) (stops : test eofChar = false)
    (behind : text.dropWhile test = []) {limit : Nat} (enough : text.length < limit)
    (name : List Char) :
    getWhile test add limit name ⟨past, text, true⟩ =
      some (eofChar, text.foldl add name, ⟨text.reverse ++ past, [], false⟩) :=
  getWhile_toEnd past test add stops (all_of_dropWhile behind) enough name

/-- The loop does not stop. -/
theorem getWhile_hangs (add : List Char -> Char -> List Char) (goesOn : test eofChar = true)
    (behind : text.dropWhile test = []) (limit : Nat) (name : List Char) :
    getWhile test add limit name ⟨past, text, true⟩ = none := by
  cases text with
  | nil => exact whileChar_failed past [] test add goesOn limit name
  | cons c rest =>
      exact whileChar_hangs (c :: past) rest test add goesOn (all_of_dropWhile behind) limit name

theorem getWhile_mono (add : List Char -> Char -> List Char) {limit limit' : Nat}
    (atLeast : limit ≤ limit') {name : List Char} {stream : InputStream}
    {found : Char × List Char × InputStream}
    (isRead : getWhile test add limit name stream = some found) :
    getWhile test add limit' name stream = some found :=
  whileChar_mono test add atLeast isRead

/-- With a smaller limit the loop finds the same or does not come back. -/
theorem getWhile_none_or {add : List Char -> Char -> List Char} {bound : Nat} {name : List Char}
    {stream : InputStream} {found : Char × List Char × InputStream}
    (known : getWhile test add bound name stream = some found) (limit : Nat) :
    getWhile test add limit name stream = none ∨
      getWhile test add limit name stream = some found := by
  cases isRead : getWhile test add limit name stream with
  | none => exact Or.inl rfl
  | some other =>
      have first := whileChar_mono test add (Nat.le_max_left limit bound) isRead
      rw [whileChar_mono test add (Nat.le_max_right limit bound) known] at first
      exact Or.inr first.symm

end GetWhile

end InputStream

end Webserver
