import Webserver.Http.Session

namespace Webserver
namespace Http

/-!
# What an earlier read leaves behind

After a read without a NUL the characters of the C string are the received bytes
followed by a stale tail, which is whatever the buffer held behind them up to
its first NUL.  Any tail that fits into the buffer is possible.

The outcome is the same for all tails in three cases: the received bytes hold a
NUL themselves, they leave no room for a tail, or no tail at all makes them look
like a request.  In every other case two tails that differ in one last character
tell the outcomes apart, since that character is part of the body.
-/

/-- The received bytes alone decide the outcome. -/
def Settled (received : Text) : Prop :=
  '\x00' ∈ received ∨ received.length = 1023 ∨
    (3 ≤ received.length ∧ forall tail : Text, '\x00' ∉ tail ->
      (received ++ tail).length ≤ 1023 -> ¬ Requestlike (received ++ tail))

/-! ## Outcomes of texts -/

theorem requestOf_error_iff (dataStr : Text) :
    requestOf dataStr = .error .outOfRange ↔ dataStr.length < 3 := by
  rw [requestOf]
  cases parsed : parseReqStr dataStr with
  | error fault =>
      rcases (parseReqStr_eq_error_iff dataStr fault).mp parsed with ⟨short, same⟩
      rw [same]
      exact ⟨fun _ => short, fun _ => rfl⟩
  | ok info =>
      constructor
      · intro impossible
        cases impossible
      · intro short
        rw [(parseReqStr_eq_error_iff dataStr .outOfRange).mpr ⟨short, rfl⟩] at parsed
        cases parsed

/-- A long enough text that does not look like a request is refused. -/
theorem requestOf_of_not_requestlike {dataStr : Text} (long : 3 ≤ dataStr.length)
    (unlike : ¬ Requestlike dataStr) : requestOf dataStr = .ok none := by
  rw [requestOf]
  cases parsed : parseReqStr dataStr with
  | error fault =>
      have short := ((parseReqStr_eq_error_iff dataStr fault).mp parsed).1
      omega
  | ok info =>
      have refused : info.parseResult ≠ true := fun accepted =>
        unlike ((parseResult_eq_true_iff parsed).mp accepted)
      simp only [bind, Except.bind, pure, Except.pure, if_neg refused]

/-- A text that looks like a request becomes one, with the rest of the text
behind the header section as its body. -/
theorem requestOf_of_requestlike {dataStr : Text} (alike : Requestlike dataStr) :
    Exists fun req : Request => Exists fun endPos : Nat => requestOf dataStr = .ok (some req) ∧
      Strings.find RequestParser.headerEnd dataStr = some endPos ∧
      req.body = dataStr.drop (endPos + 4) := by
  rcases Option.isSome_iff_exists.mp ((Strings.find_isSome_iff _ _).mpr alike.1) with
    ⟨endPos, ended⟩
  rw [requestOf]
  cases parsed : parseReqStr dataStr with
  | error fault =>
      have short := ((parseReqStr_eq_error_iff dataStr fault).mp parsed).1
      have fits := alike.1.length_le
      have four : RequestParser.headerEnd.length = 4 := rfl
      omega
  | ok info =>
      have accepted := (parseResult_eq_true_iff parsed).mpr alike
      refine ⟨⟨info.verb, info.query, info.body⟩, endPos, ?_, ended, body_of_parsed parsed ended⟩
      simp only [bind, Except.bind, pure, Except.pure, if_pos accepted]

theorem requestlike_of_requestOf {dataStr : Text} {req : Request}
    (created : requestOf dataStr = .ok (some req)) : Requestlike dataStr := by
  by_contra unlike
  by_cases short : dataStr.length < 3
  · rw [(requestOf_error_iff dataStr).mpr short] at created
    cases created
  · rw [requestOf_of_not_requestlike (by omega) unlike] at created
    cases created

/-- One more character behind a text never goes unnoticed, when either text
looks like a request. -/
theorem requestOf_concat_ne {dataStr : Text} (c : Char)
    (alike : Requestlike dataStr ∨ Requestlike (dataStr ++ [c])) :
    requestOf (dataStr ++ [c]) ≠ requestOf dataStr := by
  intro same
  have first : Requestlike dataStr := by
    rcases alike with first | second
    · exact first
    · rcases requestOf_of_requestlike second with ⟨req, _, created, _⟩
      exact requestlike_of_requestOf (same ▸ created)
  rcases requestOf_of_requestlike first with ⟨req, endPos, created, ended, body⟩
  rcases requestOf_of_requestlike (requestlike_of_requestOf (same.trans created)) with
    ⟨later, laterPos, laterCreated, laterEnded, laterBody⟩
  rw [Strings.find_append_of_some ended] at laterEnded
  rw [same, created] at laterCreated
  cases laterEnded
  cases laterCreated
  have fits : endPos + 4 ≤ dataStr.length := by
    have size := ((Strings.find_eq_some_iff _ _ _).mp ended).2.1.length_le
    have four : RequestParser.headerEnd.length = 4 := rfl
    rw [List.length_drop, four] at size
    omega
  rw [body, List.drop_append_of_le_length fits] at laterBody
  have longer := congrArg List.length laterBody
  simp at longer

/-! ## Tails -/

/-- Every tail that leaves room for a NUL is what some buffer holds. -/
theorem exists_buffer (chunk : Chunk) {tail : Text} (noNul : '\x00' ∉ tail)
    (fits : (chunk.bytes ++ tail).length ≤ 1023) :
    Exists fun buffer : Buffer => '\x00' ∈ buffer.bytes.drop chunk.bytes.length ∧
      cString (buffer.bytes.drop chunk.bytes.length) = tail := by
  rw [List.length_append] at fits
  let filler := List.replicate (1023 - chunk.bytes.length - tail.length) '\x00'
  have size : (chunk.bytes ++ (tail ++ '\x00' :: filler)).length = maxLength := by
    simp only [List.length_append, List.length_cons, filler, List.length_replicate, maxLength]
    omega
  refine ⟨⟨chunk.bytes ++ (tail ++ '\x00' :: filler), size⟩, ?_, ?_⟩
  · simp
  · simp only [List.drop_left]
    rw [cString_append_of_notMem noNul, cString_nul, List.append_nil]

/-- The tail of a buffer has no NUL and leaves room for one. -/
theorem tail_fits {chunk : Chunk} {buffer : Buffer}
    (stale : '\x00' ∈ buffer.bytes.drop chunk.bytes.length) :
    '\x00' ∉ cString (buffer.bytes.drop chunk.bytes.length) ∧
      (chunk.bytes ++ cString (buffer.bytes.drop chunk.bytes.length)).length ≤ 1023 := by
  rcases List.eq_append_cons_of_mem stale with ⟨before, after, split, avoids⟩
  have text : cString (buffer.bytes.drop chunk.bytes.length) = before := by
    rw [split, cString_append_of_notMem avoids, cString_nul, List.append_nil]
  have size := congrArg List.length split
  have whole := buffer.size
  have fits := chunk.fits
  simp only [List.length_drop, List.length_append, List.length_cons, maxLength] at size whole fits
  rw [text]
  refine ⟨avoids, ?_⟩
  rw [List.length_append]
  omega

theorem createRequest_of_noNul {chunk : Chunk} (noNul : '\x00' ∉ chunk.bytes) {buffer : Buffer}
    (stale : '\x00' ∈ buffer.bytes.drop chunk.bytes.length) :
    createRequest (buffer.receive chunk) =
      requestOf (chunk.bytes ++ cString (buffer.bytes.drop chunk.bytes.length)) := by
  rw [createRequest, text_receive noNul stale]
  rfl

theorem createRequest_of_nul {chunk : Chunk} (nul : '\x00' ∈ chunk.bytes) (buffer : Buffer) :
    createRequest (buffer.receive chunk) = requestOf (cString chunk.bytes) := by
  rw [createRequest, Buffer.text, Buffer.receive, if_pos (List.mem_append_left _ nul),
    cString_append_of_mem nul]
  rfl

/-- Outcomes that do not depend on the tail are settled by the received bytes. -/
theorem settled_of_constant {received : Text} (short : received.length < 1024)
    (constant : forall first second : Text, '\x00' ∉ first -> '\x00' ∉ second ->
      (received ++ first).length ≤ 1023 -> (received ++ second).length ≤ 1023 ->
      requestOf (received ++ first) = requestOf (received ++ second)) : Settled received := by
  by_cases full : received.length = 1023
  · exact Or.inr (Or.inl full)
  refine Or.inr (Or.inr ⟨?_, ?_⟩)
  · by_contra few
    have thrown : requestOf (received ++ []) = .error .outOfRange :=
      (requestOf_error_iff _).mpr (by simp; omega)
    have same := constant [] "xxx".toList (by simp) (by decide) (by simp; omega) (by simp; omega)
    rw [thrown] at same
    have alsoShort := (requestOf_error_iff _).mp same.symm
    rw [List.length_append] at alsoShort
    have three : "xxx".toList.length = 3 := rfl
    omega
  · intro tail tailNoNul fits alike
    by_cases room : (received ++ tail).length = 1023
    · -- The buffer is full: compare with the tail that is one character shorter.
      rcases List.eq_nil_or_concat tail with empty | ⟨front, last, rfl⟩
      · rw [empty, List.append_nil] at room
        exact full room
      · rw [List.concat_eq_append] at tailNoNul fits alike
        have frontNoNul : '\x00' ∉ front := fun member =>
          tailNoNul (List.mem_append_left _ member)
        rw [← List.append_assoc] at fits alike
        have same := constant (front ++ [last]) front tailNoNul frontNoNul
          (by rw [← List.append_assoc]; exact fits) (by simp at fits ⊢; omega)
        rw [← List.append_assoc] at same
        exact requestOf_concat_ne last (Or.inr alike) same
    · have longerNoNul : '\x00' ∉ tail ++ ['x'] := by simp [tailNoNul]
      have same := constant (tail ++ ['x']) tail longerNoNul tailNoNul
        (by simp at fits room ⊢; omega) fits
      rw [← List.append_assoc] at same
      exact requestOf_concat_ne 'x' (Or.inl alike) same

/-- A read of fewer than 1024 bytes gives the same outcome over all buffers with
a NUL behind it exactly when the received bytes settle it. -/
theorem createRequest_constant_iff (chunk : Chunk) (short : chunk.bytes.length < 1024) :
    (forall first second : Buffer,
      '\x00' ∈ first.bytes.drop chunk.bytes.length ->
      '\x00' ∈ second.bytes.drop chunk.bytes.length ->
      createRequest (first.receive chunk) = createRequest (second.receive chunk)) ↔
    Settled chunk.bytes := by
  by_cases nul : '\x00' ∈ chunk.bytes
  · constructor
    · intro _
      exact Or.inl nul
    · intro _ first second _ _
      rw [createRequest_of_nul nul, createRequest_of_nul nul]
  · constructor
    · intro constant
      apply settled_of_constant short
      intro first second firstNoNul secondNoNul firstFits secondFits
      rcases exists_buffer chunk firstNoNul firstFits with ⟨firstBuffer, firstStale, firstTail⟩
      rcases exists_buffer chunk secondNoNul secondFits with ⟨secondBuffer, secondStale, secondTail⟩
      have same := constant firstBuffer secondBuffer firstStale secondStale
      rwa [createRequest_of_noNul nul firstStale, createRequest_of_noNul nul secondStale,
        firstTail, secondTail] at same
    · intro settled first second firstStale secondStale
      rw [createRequest_of_noNul nul firstStale, createRequest_of_noNul nul secondStale]
      rcases tail_fits firstStale with ⟨firstNoNul, firstFits⟩
      rcases tail_fits secondStale with ⟨secondNoNul, secondFits⟩
      rcases settled with impossible | full | ⟨long, unlike⟩
      · exact absurd impossible nul
      · have empty : forall tail : Text, (chunk.bytes ++ tail).length ≤ 1023 -> tail = [] := by
          intro tail fits
          rw [List.length_append, full] at fits
          exact List.length_eq_zero_iff.mp (by omega)
        rw [empty _ firstFits, empty _ secondFits]
      · have long' : forall tail : Text, 3 ≤ (chunk.bytes ++ tail).length := by
          intro tail
          rw [List.length_append]
          omega
        rw [requestOf_of_not_requestlike (long' _) (unlike _ firstNoNul firstFits),
          requestOf_of_not_requestlike (long' _) (unlike _ secondNoNul secondFits)]

/-- A complete request without a body. -/
def bodilessChunk : Chunk := ⟨"GET /a HTTP/1.1\r\n\r\n".toList, by decide, by decide⟩

theorem bodiless_constant_iff :
    (forall first second : Buffer,
      '\x00' ∈ first.bytes.drop bodilessChunk.bytes.length ->
      '\x00' ∈ second.bytes.drop bodilessChunk.bytes.length ->
      createRequest (first.receive bodilessChunk) = createRequest (second.receive bodilessChunk)) ↔
    Settled bodilessChunk.bytes :=
  createRequest_constant_iff bodilessChunk (by decide)

/-- Twenty bytes left by an earlier read reach one byte beyond the request, and
that byte becomes its body. -/
theorem bodiless_after_longer_read :
    let earlier : Chunk := ⟨List.replicate 20 'x', by decide, by decide⟩
    createRequest (Buffer.blank.receive bodilessChunk) = .ok (some ⟨.get, "/a".toList, []⟩) ∧
    createRequest ((Buffer.blank.receive earlier).receive bodilessChunk) =
      .ok (some ⟨.get, "/a".toList, "x".toList⟩) ∧
    '\x00' ∈ Buffer.blank.bytes.drop bodilessChunk.bytes.length ∧
    '\x00' ∈ (Buffer.blank.receive earlier).bytes.drop bodilessChunk.bytes.length :=
  ⟨rfl, rfl, by decide, by decide⟩

end Http
end Webserver
