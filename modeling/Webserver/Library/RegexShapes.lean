import Webserver.Library.Regex

namespace Webserver
namespace Regex

/-!
# What the shape of an expression says about its matches

`Passes` is the relation behind `ends`: what can be between the start and the end of a
match, without the order of the search.  It over-approximates the search where an
expression forbids something, so it shows what matches look like and that there are
none, not that there are some.

`needs` and `opens` are read off the expression alone.
-/

/-- A match of the expression can go from one cursor to the other. -/
inductive Passes : Regex -> Cursor -> Cursor -> Prop
  | empty (cursor : Cursor) : Passes empty cursor cursor
  | one {set : CharSet} {c : Char} (accepted : set.accepts c = true) (before after : List Char)
      (groups : List (Nat × List Char)) :
      Passes (one set) ⟨before, c :: after, groups⟩ ⟨c :: before, after, groups⟩
  | seq {first second : Regex} {cursor middle final : Cursor} (front : Passes first cursor middle)
      (back : Passes second middle final) : Passes (seq first second) cursor final
  | altFirst {first : Regex} (second : Regex) {cursor final : Cursor}
      (taken : Passes first cursor final) : Passes (alt first second) cursor final
  | altSecond (first : Regex) {second : Regex} {cursor final : Cursor}
      (taken : Passes second cursor final) : Passes (alt first second) cursor final
  | starDone (lazy : Bool) (body : Regex) (cursor : Cursor) : Passes (star lazy body) cursor cursor
  | starMore {lazy : Bool} {body : Regex} {cursor middle final : Cursor}
      (round : Passes body cursor middle) (more : Passes (star lazy body) middle final) :
      Passes (star lazy body) cursor final
  | group (number : Nat) {body : Regex} {cursor final : Cursor} (inside : Passes body cursor final) :
      Passes (group number body) cursor (cursor.capture number final)
  | backReference (number : Nat) (before text after : List Char) (groups : List (Nat × List Char))
      (captured : (groups.lookup number).getD [] = text) :
      Passes (backReference number) ⟨before, text ++ after, groups⟩
        ⟨text.reverse ++ before, after, groups⟩
  | ahead {body : Regex} {cursor next : Cursor} (seen : Passes body cursor next) :
      Passes (ahead body) cursor { cursor with groups := next.groups }
  | notAhead {body : Regex} {cursor : Cursor} (unseen : body.ends cursor = []) :
      Passes (notAhead body) cursor cursor
  | behind {set : CharSet} {cursor : Cursor} (passed : cursor.before.head?.any set.accepts = true) :
      Passes (behind set) cursor cursor
  | notBehind {set : CharSet} {cursor : Cursor}
      (notPassed : cursor.before.head?.any set.accepts = false) :
      Passes (notBehind set) cursor cursor
  | lineStart {cursor : Cursor} (starts : cursor.before.head?.all isSeparator = true) :
      Passes lineStart cursor cursor
  | lineEnd {cursor : Cursor} (stops : cursor.after.head?.all isSeparator = true) :
      Passes lineEnd cursor cursor

theorem Passes.of_iterate {lazy : Bool} {body : Regex}
    (each : forall {cursor next}, next ∈ body.ends cursor -> Passes body cursor next)
    {rounds : Nat} {cursor final : Cursor}
    (member : final ∈ iterate lazy body.ends rounds cursor) :
    Passes (star lazy body) cursor final := by
  induction rounds generalizing cursor with
  | zero =>
      rw [iterate, List.mem_singleton] at member
      rw [member]
      exact .starDone lazy body cursor
  | succ rounds inductionHypothesis =>
      have parts : final = cursor ∨ Exists fun next : Cursor =>
          next ∈ body.ends cursor ∧ final ∈ iterate lazy body.ends rounds next := by
        have collect : forall {more : List Cursor}, final ∈ (if lazy then cursor :: more
            else more ++ [cursor]) -> final = cursor ∨ final ∈ more := by
          intro more member
          split at member
          · exact List.mem_cons.mp member
          · exact (List.mem_append.mp member).symm.imp_left List.mem_singleton.mp
        rw [iterate] at member
        refine (collect member).imp_right ?_
        intro more
        rcases List.mem_flatMap.mp more with ⟨next, reached, later⟩
        exact ⟨next, (List.mem_filter.mp reached).1, later⟩
      rcases parts with rfl | ⟨next, reached, later⟩
      · exact .starDone lazy body final
      · exact .starMore (each reached) (inductionHypothesis later)

/-- Where the search arrives, a match can go. -/
theorem Passes.of_mem {regex : Regex} {cursor final : Cursor} (member : final ∈ regex.ends cursor) :
    Passes regex cursor final := by
  induction regex generalizing cursor final with
  | empty =>
      rw [ends, List.mem_singleton] at member
      exact member ▸ .empty cursor
  | one set =>
      rcases cursor with ⟨before, _ | ⟨c, after⟩, groups⟩
      · cases member
      · rw [ends] at member
        dsimp only at member
        split at member
        · rename_i accepted
          rw [List.mem_singleton.mp member]
          exact .one accepted before after groups
        · cases member
  | seq first second firstHypothesis secondHypothesis =>
      rcases List.mem_flatMap.mp member with ⟨middle, front, back⟩
      exact .seq (firstHypothesis front) (secondHypothesis back)
  | alt first second firstHypothesis secondHypothesis =>
      rcases List.mem_append.mp member with taken | taken
      · exact .altFirst second (firstHypothesis taken)
      · exact .altSecond first (secondHypothesis taken)
  | star lazy body inductionHypothesis => exact .of_iterate inductionHypothesis member
  | group number body inductionHypothesis =>
      rcases List.mem_map.mp member with ⟨inner, inside, rfl⟩
      exact .group number (inductionHypothesis inside)
  | backReference number =>
      rw [ends, Cursor.pass] at member
      split at member
      · rename_i isPrefix
        rcases isPrefix with ⟨rest, same⟩
        rw [List.mem_singleton.mp member]
        rcases cursor with ⟨before, after, groups⟩
        dsimp only at same ⊢
        rw [← same, List.drop_left]
        exact .backReference number before _ rest groups rfl
      · cases member
  | ahead body inductionHypothesis =>
      rw [ends] at member
      cases seen : body.ends cursor with
      | nil =>
          rw [seen] at member
          cases member
      | cons next others =>
          rw [seen] at member
          rw [List.mem_singleton.mp member]
          exact .ahead (inductionHypothesis (seen ▸ List.mem_cons_self))
  | notAhead body _ =>
      rw [ends] at member
      split at member
      · rename_i unseen
        rw [List.mem_singleton.mp member]
        exact .notAhead (List.isEmpty_iff.mp unseen)
      · cases member
  | behind set =>
      rw [ends] at member
      split at member
      · rename_i passed
        rw [List.mem_singleton.mp member]
        exact .behind passed
      · cases member
  | notBehind set =>
      rw [ends] at member
      split at member
      · cases member
      · rename_i notPassed
        rw [List.mem_singleton.mp member]
        exact .notBehind (Bool.not_eq_true _ ▸ notPassed)
  | lineStart =>
      rcases cursor with ⟨_ | ⟨c, before⟩, after, groups⟩
      · rw [List.mem_singleton.mp member]
        exact .lineStart rfl
      · rw [ends] at member
        dsimp only at member
        split at member
        · rename_i starts
          rw [List.mem_singleton.mp member]
          exact .lineStart (Bool.and_eq_true _ _ ▸ starts).1
        · cases member
  | lineEnd =>
      rcases cursor with ⟨before, _ | ⟨c, after⟩, groups⟩
      · rw [List.mem_singleton.mp member]
        exact .lineEnd rfl
      · rw [ends] at member
        dsimp only at member
        split at member
        · rename_i stops
          rw [List.mem_singleton.mp member]
          exact .lineEnd (Bool.and_eq_true _ _ ▸ stops).1
        · cases member

/-! ## What a match reads -/

/-- The second cursor is behind a text that the first one has before it. -/
def Cursor.Reads (cursor : Cursor) (text : List Char) (final : Cursor) : Prop :=
  cursor.after = text ++ final.after ∧ final.before = text.reverse ++ cursor.before

theorem Cursor.Reads.refl (cursor : Cursor) : cursor.Reads [] cursor := ⟨rfl, rfl⟩

theorem Cursor.Reads.trans {cursor middle final : Cursor} {first second : List Char}
    (front : cursor.Reads first middle) (back : middle.Reads second final) :
    cursor.Reads (first ++ second) final := by
  refine ⟨?_, ?_⟩
  · rw [front.1, back.1, List.append_assoc]
  · rw [back.2, front.2, List.reverse_append, List.append_assoc]

theorem Cursor.Reads.upTo {cursor final : Cursor} {text : List Char} (reads : cursor.Reads text final) :
    cursor.upTo final = text := by
  rw [Cursor.upTo, reads.1, List.length_append, Nat.add_sub_cancel, List.take_left]

theorem Passes.reads {regex : Regex} {cursor final : Cursor} (passes : Passes regex cursor final) :
    Exists fun text : List Char => cursor.Reads text final := by
  induction passes with
  | empty cursor => exact ⟨[], .refl cursor⟩
  | one _ before after groups => exact ⟨[_], rfl, rfl⟩
  | seq _ _ front back =>
      rcases front with ⟨first, front⟩
      rcases back with ⟨second, back⟩
      exact ⟨first ++ second, front.trans back⟩
  | altFirst _ _ inductionHypothesis => exact inductionHypothesis
  | altSecond _ _ inductionHypothesis => exact inductionHypothesis
  | starDone _ _ cursor => exact ⟨[], .refl cursor⟩
  | starMore _ _ front back =>
      rcases front with ⟨first, front⟩
      rcases back with ⟨second, back⟩
      exact ⟨first ++ second, front.trans back⟩
  | group _ _ inductionHypothesis =>
      rcases inductionHypothesis with ⟨text, reads⟩
      exact ⟨text, reads⟩
  | backReference _ before text after groups _ => exact ⟨text, rfl, rfl⟩
  | ahead _ _ => exact ⟨[], rfl, rfl⟩
  | notAhead _ => exact ⟨[], .refl _⟩
  | behind _ => exact ⟨[], .refl _⟩
  | notBehind _ => exact ⟨[], .refl _⟩
  | lineStart _ => exact ⟨[], .refl _⟩
  | lineEnd _ => exact ⟨[], .refl _⟩

/-! ## Characters that every match needs -/

end Regex

/-- Every character of the set has the property. -/
def CharSet.within (property : Char -> Bool) (set : CharSet) : Bool :=
  !set.negated && set.singles.all property &&
    set.ranges.all (fun range =>
      (List.range (range.2.toNat + 1)).all (fun code =>
        code < range.1.toNat || property (Char.ofNat code)))

theorem CharSet.within_accepts {property : Char -> Bool} {set : CharSet}
    (inside : set.within property = true) {c : Char} (accepted : set.accepts c = true) :
    property c = true := by
  simp only [within, Bool.and_eq_true, Bool.not_eq_true', List.all_eq_true] at inside
  rcases inside with ⟨⟨plain, singles⟩, ranges⟩
  rw [accepts, plain, bne_iff_ne, Bool.ne_false_iff] at accepted
  simp only [Bool.or_eq_true, List.contains_iff_mem, List.any_eq_true,
    Bool.and_eq_true, decide_eq_true_eq] at accepted
  rcases accepted with single | ⟨range, member, above, below⟩
  · exact singles c single
  · have low : range.1.toNat ≤ c.toNat := above
    have high : c.toNat ≤ range.2.toNat := below
    have held := ranges range member c.toNat (List.mem_range.mpr (by omega))
    rw [Bool.or_eq_true, decide_eq_true_eq, Char.ofNat_toNat] at held
    exact held.resolve_left (by omega)

namespace Regex

/-- Every match reads a character with the property. -/
def needs (property : Char -> Bool) : Regex -> Bool
  | one set => set.within property
  | seq first second => needs property first || needs property second
  | alt first second => needs property first && needs property second
  | group _ body => needs property body
  | _ => false

theorem Passes.of_needs {property : Char -> Bool} {regex : Regex} {cursor final : Cursor}
    (passes : Passes regex cursor final) (needed : regex.needs property = true) :
    Exists fun front : List Char => Exists fun c : Char => Exists fun back : List Char =>
      property c = true ∧ cursor.after = front ++ c :: back ++ final.after := by
  induction passes with
  | one accepted before after groups =>
      exact ⟨[], _, [], CharSet.within_accepts needed accepted, rfl⟩
  | seq front back frontHypothesis backHypothesis =>
      rcases (Bool.or_eq_true _ _).mp needed with first | second
      · rcases frontHypothesis first with ⟨text, c, more, has, same⟩
        rcases back.reads with ⟨rest, reads⟩
        refine ⟨text, c, more ++ rest, has, ?_⟩
        rw [same, reads.1]
        simp only [List.append_assoc, List.cons_append]
      · rcases backHypothesis second with ⟨text, c, more, has, same⟩
        rcases front.reads with ⟨rest, reads⟩
        refine ⟨rest ++ text, c, more, has, ?_⟩
        rw [reads.1, same]
        simp only [List.append_assoc]
  | altFirst _ _ inductionHypothesis => exact inductionHypothesis ((Bool.and_eq_true _ _).mp needed).1
  | altSecond _ _ inductionHypothesis => exact inductionHypothesis ((Bool.and_eq_true _ _).mp needed).2
  | group _ _ inductionHypothesis => exact inductionHypothesis needed
  | _ => cases needed

mutual

/-- Every match of the expression that reads something starts with a character that has
the property. -/
def mayOpen (property : Char -> Bool) : Regex -> Bool
  | one set => set.within property
  | seq first second =>
      opens property first || (mayOpen property first && mayOpen property second)
  | alt first second => mayOpen property first && mayOpen property second
  | star _ body => mayOpen property body
  | group _ body => mayOpen property body
  | backReference _ => false
  | _ => true

/-- Every match of the expression reads something, and starts with a character that has
the property. -/
def opens (property : Char -> Bool) : Regex -> Bool
  | one set => set.within property
  | seq first second =>
      opens property first || (mayOpen property first && opens property second)
  | alt first second => opens property first && opens property second
  | group _ body => opens property body
  | _ => false

end

theorem Passes.openings {property : Char -> Bool} {regex : Regex} {cursor final : Cursor}
    (passes : Passes regex cursor final) :
    (regex.mayOpen property = true ->
      final.after = cursor.after ∨ cursor.after.head?.any property = true) ∧
    (regex.opens property = true -> cursor.after.head?.any property = true) := by
  have either := fun first second : Bool => (Bool.or_eq_true first second).mp
  have both := fun first second : Bool => (Bool.and_eq_true first second).mp
  induction passes with
  | one accepted before after groups =>
      exact ⟨fun may => Or.inr (CharSet.within_accepts may accepted), fun open_ => CharSet.within_accepts open_ accepted⟩
  | seq _ _ frontHypothesis backHypothesis =>
      refine ⟨fun may => ?_, fun open_ => ?_⟩
      · rcases either _ _ may with first | may
        · exact Or.inr (frontHypothesis.2 first)
        · rcases frontHypothesis.1 (both _ _ may).1 with same | started
          · exact same ▸ backHypothesis.1 (both _ _ may).2
          · exact Or.inr started
      · rcases either _ _ open_ with first | second
        · exact frontHypothesis.2 first
        · rcases frontHypothesis.1 (both _ _ second).1 with same | started
          · exact same ▸ backHypothesis.2 (both _ _ second).2
          · exact started
  | altFirst _ _ inductionHypothesis =>
      exact ⟨fun may => inductionHypothesis.1 (both _ _ may).1,
        fun open_ => inductionHypothesis.2 (both _ _ open_).1⟩
  | altSecond _ _ inductionHypothesis =>
      exact ⟨fun may => inductionHypothesis.1 (both _ _ may).2,
        fun open_ => inductionHypothesis.2 (both _ _ open_).2⟩
  | starMore _ _ frontHypothesis backHypothesis =>
      refine ⟨fun may => ?_, fun open_ => nomatch open_⟩
      rcases frontHypothesis.1 may with same | started
      · exact same ▸ backHypothesis.1 may
      · exact Or.inr started
  | group _ _ inductionHypothesis => exact inductionHypothesis
  | backReference => exact ⟨fun may => (nomatch may), fun open_ => nomatch open_⟩
  | _ => exact ⟨fun _ => Or.inl rfl, fun open_ => nomatch open_⟩

theorem Passes.of_mayOpen {property : Char -> Bool} {regex : Regex} {cursor final : Cursor}
    (passes : Passes regex cursor final) (may : regex.mayOpen property = true) :
    final.after = cursor.after ∨ cursor.after.head?.any property = true :=
  passes.openings.1 may

theorem Passes.of_opens {property : Char -> Bool} {regex : Regex} {cursor final : Cursor}
    (passes : Passes regex cursor final) (open_ : regex.opens property = true) :
    cursor.after.head?.any property = true :=
  passes.openings.2 open_

/-! ## The length of a match -/

/-- Every match reads as many characters or more. -/
def shortest : Regex -> Nat
  | one _ => 1
  | seq first second => shortest first + shortest second
  | alt first second => min (shortest first) (shortest second)
  | group _ body => shortest body
  | _ => 0

theorem shortest_times (count : Nat) (body : Regex) : (times count body).shortest = count * body.shortest := by
  induction count with
  | zero => exact (Nat.zero_mul _).symm
  | succ count inductionHypothesis =>
      rw [Nat.succ_mul, ← inductionHypothesis]
      exact Nat.add_comm _ _

theorem Passes.shortest_le {regex : Regex} {cursor final : Cursor} (passes : Passes regex cursor final) :
    regex.shortest + final.after.length ≤ cursor.after.length := by
  induction passes with
  | one accepted before after groups => exact Nat.le_of_eq (Nat.add_comm _ _)
  | @seq first second cursor middle final _ _ front back =>
      change first.shortest + second.shortest + final.after.length ≤ cursor.after.length
      omega
  | altFirst _ _ inductionHypothesis =>
      exact Nat.le_trans (Nat.add_le_add_right (Nat.min_le_left _ _) _) inductionHypothesis
  | altSecond _ _ inductionHypothesis =>
      exact Nat.le_trans (Nat.add_le_add_right (Nat.min_le_right _ _) _) inductionHypothesis
  | starMore _ _ front back =>
      exact Nat.le_trans back (Nat.le_trans (Nat.le_add_left _ _) front)
  | group _ _ inductionHypothesis => exact inductionHypothesis
  | backReference _ before text after groups _ =>
      change 0 + after.length ≤ (text ++ after).length
      rw [List.length_append]
      exact Nat.add_le_add_right (Nat.zero_le _) _
  | _ => exact Nat.le_of_eq (Nat.zero_add _)

/-! ## Groups -/

theorem Passes.of_group {number : Nat} {body : Regex} {cursor final : Cursor}
    (passes : Passes (.group number body) cursor final) :
    Exists fun inner : Cursor => Exists fun text : List Char => Passes body cursor inner ∧
      cursor.Reads text inner ∧ final = ⟨inner.before, inner.after, (number, text) :: inner.groups⟩ := by
  cases passes with
  | group _ inside =>
      rcases inside.reads with ⟨text, reads⟩
      exact ⟨_, text, inside, reads, by rw [Cursor.capture, reads.upTo]⟩

theorem Passes.of_backReference {number : Nat} {cursor final : Cursor}
    (passes : Passes (.backReference number) cursor final) :
    cursor.Reads ((cursor.groups.lookup number).getD []) final ∧ final.groups = cursor.groups := by
  cases passes with
  | backReference _ before text after groups captured =>
      dsimp only
      rw [captured]
      exact ⟨⟨rfl, rfl⟩, rfl⟩

/-- No match of the expression sets the group. -/
def avoids (number : Nat) : Regex -> Bool
  | seq first second => avoids number first && avoids number second
  | alt first second => avoids number first && avoids number second
  | star _ body => avoids number body
  | group other body => other != number && avoids number body
  | ahead body => avoids number body
  | _ => true

theorem Passes.lookup_of_avoids {number : Nat} {regex : Regex} {cursor final : Cursor}
    (passes : Passes regex cursor final) (kept : regex.avoids number = true) :
    final.groups.lookup number = cursor.groups.lookup number := by
  induction passes with
  | seq _ _ front back =>
      rw [avoids, Bool.and_eq_true] at kept
      exact (back kept.2).trans (front kept.1)
  | altFirst _ _ inductionHypothesis =>
      rw [avoids, Bool.and_eq_true] at kept
      exact inductionHypothesis kept.1
  | altSecond _ _ inductionHypothesis =>
      rw [avoids, Bool.and_eq_true] at kept
      exact inductionHypothesis kept.2
  | starMore _ _ front back => exact (back kept).trans (front kept)
  | group other inside inductionHypothesis =>
      rw [avoids, Bool.and_eq_true, bne_iff_ne] at kept
      rw [Cursor.capture, List.lookup_cons, beq_eq_false_iff_ne.mpr (Ne.symm kept.1)]
      exact inductionHypothesis kept.2
  | ahead _ inductionHypothesis => exact inductionHypothesis kept
  | _ => rfl

/-- A group that is set stays set. -/
theorem Passes.set_of_set {number : Nat} {regex : Regex} {cursor final : Cursor}
    (passes : Passes regex cursor final) (before : (cursor.groups.lookup number).isSome = true) :
    (final.groups.lookup number).isSome = true := by
  induction passes with
  | seq _ _ front back => exact back (front before)
  | altFirst _ _ inductionHypothesis => exact inductionHypothesis before
  | altSecond _ _ inductionHypothesis => exact inductionHypothesis before
  | starMore _ _ front back => exact back (front before)
  | group other inside inductionHypothesis =>
      rw [Cursor.capture, List.lookup_cons]
      split
      · rfl
      · exact inductionHypothesis before
  | ahead _ inductionHypothesis => exact inductionHypothesis before
  | _ => exact before

/-- Every match of the expression sets the group. -/
def sets (number : Nat) : Regex -> Bool
  | seq first second => sets number first || sets number second
  | alt first second => sets number first && sets number second
  | group other body => other == number || sets number body
  | ahead body => sets number body
  | _ => false

theorem Passes.set_of_sets {number : Nat} {regex : Regex} {cursor final : Cursor}
    (passes : Passes regex cursor final) (certain : regex.sets number = true) :
    (final.groups.lookup number).isSome = true := by
  induction passes with
  | seq _ last front back =>
      rw [sets, Bool.or_eq_true] at certain
      rcases certain with early | late
      · exact last.set_of_set (front early)
      · exact back late
  | altFirst _ _ inductionHypothesis =>
      rw [sets, Bool.and_eq_true] at certain
      exact inductionHypothesis certain.1
  | altSecond _ _ inductionHypothesis =>
      rw [sets, Bool.and_eq_true] at certain
      exact inductionHypothesis certain.2
  | group other inside inductionHypothesis =>
      rw [sets, Bool.or_eq_true, beq_iff_eq] at certain
      rw [Cursor.capture, List.lookup_cons]
      rcases certain with same | within_
      · rw [same, beq_self_eq_true]
        rfl
      · split
        · rfl
        · exact inductionHypothesis within_
  | ahead _ inductionHypothesis => exact inductionHypothesis certain
  | _ => cases certain

theorem Passes.of_word {text : List Char} {cursor final : Cursor}
    (passes : Passes (.word text) cursor final) : cursor.Reads text final := by
  have one : forall {c : Char} {cursor final : Cursor}, Passes (.one (.oneOf [c])) cursor final ->
      cursor.Reads [c] final := by
    intro c cursor final passes
    cases passes with
    | one accepted before after groups =>
        simp only [CharSet.accepts, CharSet.oneOf, List.any_nil, Bool.or_false, bne_iff_ne,
          ne_eq, Bool.not_eq_false, List.contains_iff_mem, List.mem_singleton] at accepted
        rw [accepted]
        exact ⟨rfl, rfl⟩
  induction text generalizing cursor with
  | nil =>
      cases passes
      exact .refl _
  | cons c rest inductionHypothesis =>
      cases rest with
      | nil => exact one passes
      | cons d rest =>
          cases passes with
          | seq front back => exact (one front).trans (inductionHypothesis back)

/-! ## Runs of a character set -/

/-- Between the cursors is a text of characters from the set; no group changes. -/
def Cursor.ReadsRun (set : CharSet) (cursor : Cursor) (text : List Char) (final : Cursor) : Prop :=
  cursor.Reads text final ∧ (forall c, c ∈ text -> set.accepts c = true) ∧ final.groups = cursor.groups

theorem Cursor.ReadsRun.trans {set : CharSet} {cursor middle final : Cursor} {first second : List Char}
    (front : cursor.ReadsRun set first middle) (back : middle.ReadsRun set second final) :
    cursor.ReadsRun set (first ++ second) final := by
  refine ⟨front.1.trans back.1, ?_, back.2.2.trans front.2.2⟩
  intro c member
  rcases List.mem_append.mp member with early | late
  · exact front.2.1 c early
  · exact back.2.1 c late

theorem Passes.of_one {set : CharSet} {cursor final : Cursor} (passes : Passes (.one set) cursor final) :
    Exists fun c : Char => cursor.ReadsRun set [c] final := by
  cases passes with
  | @one set c accepted before after groups =>
      refine ⟨c, ⟨rfl, rfl⟩, ?_, rfl⟩
      intro other member
      rw [List.mem_singleton.mp member]
      exact accepted

theorem Passes.of_upTo {set : CharSet} {limit : Nat} {cursor final : Cursor}
    (passes : Passes (.upTo limit (.one set)) cursor final) :
    Exists fun text : List Char => text.length ≤ limit ∧ cursor.ReadsRun set text final := by
  have done : forall cursor : Cursor, cursor.ReadsRun set [] cursor :=
    fun cursor => ⟨.refl cursor, fun _ member => (List.not_mem_nil member).elim, rfl⟩
  induction limit generalizing cursor with
  | zero =>
      cases passes
      exact ⟨[], Nat.le_refl _, done _⟩
  | succ limit inductionHypothesis =>
      cases passes with
      | altFirst _ taken =>
          cases taken with
          | seq front back =>
              rcases front.of_one with ⟨c, here⟩
              rcases inductionHypothesis back with ⟨text, short, later⟩
              exact ⟨c :: text, Nat.succ_le_succ short, here.trans later⟩
      | altSecond _ taken =>
          cases taken
          exact ⟨[], Nat.zero_le _, done _⟩

theorem Passes.of_many {lazy : Bool} {set : CharSet} {cursor final : Cursor}
    (passes : Passes (.star lazy (.one set)) cursor final) :
    Exists fun text : List Char => cursor.ReadsRun set text final := by
  generalize same : Regex.star lazy (.one set) = regex at passes
  induction passes with
  | starDone _ _ cursor =>
      exact ⟨[], .refl cursor, fun _ member => (List.not_mem_nil member).elim, rfl⟩
  | starMore round _ _ inductionHypothesis =>
      injection same with sameLazy sameBody
      subst sameLazy sameBody
      rcases round.of_one with ⟨c, here⟩
      rcases inductionHypothesis rfl with ⟨text, later⟩
      exact ⟨c :: text, here.trans later⟩
  | _ => cases same

/-! ## Searches -/

theorem matchAt_eq_some {regex : Regex} {cursor : Cursor} {found : Match}
    (matched : regex.matchAt cursor = some found) :
    Exists fun final : Cursor => Passes regex cursor final ∧ cursor.Reads found.whole final ∧
      found.before = cursor.before.reverse ∧ found.after = final.after ∧
      found.groups = final.groups := by
  rcases Option.map_eq_some_iff.mp matched with ⟨final, first, rfl⟩
  have passes := Passes.of_mem (List.mem_of_head? first)
  rcases passes.reads with ⟨text, reads⟩
  exact ⟨final, passes, reads.upTo.symm ▸ reads, rfl, rfl, rfl⟩

theorem searchFrom_eq_some {regex : Regex} {before after : List Char} {found : Match}
    (matched : regex.searchFrom before after = some found) :
    Exists fun final : Cursor => Exists fun skipped : List Char =>
      Passes regex ⟨skipped.reverse ++ before, found.whole ++ found.after, []⟩ final ∧
      Cursor.Reads ⟨skipped.reverse ++ before, found.whole ++ found.after, []⟩ found.whole final ∧
      after = skipped ++ found.whole ++ found.after ∧
      found.before = before.reverse ++ skipped ∧ found.after = final.after ∧
      found.groups = final.groups := by
  have here : forall {before after : List Char},
      regex.matchAt ⟨before, after, []⟩ = some found -> Exists fun final : Cursor =>
        Passes regex ⟨before, found.whole ++ found.after, []⟩ final ∧
        Cursor.Reads ⟨before, found.whole ++ found.after, []⟩ found.whole final ∧
        after = found.whole ++ found.after ∧ found.before = before.reverse ∧
        found.after = final.after ∧ found.groups = final.groups := by
    intro before after matched
    rcases matchAt_eq_some matched with ⟨final, passes, reads, behind_, rest, groups⟩
    have same : after = found.whole ++ found.after := rest.symm ▸ reads.1
    subst same
    exact ⟨final, passes, reads, rfl, behind_, rest, groups⟩
  induction after generalizing before with
  | nil =>
      rcases here matched with ⟨final, passes, reads, same, behind_, rest, groups⟩
      exact ⟨final, [], passes, reads, same, by rw [behind_, List.append_nil], rest, groups⟩
  | cons c after inductionHypothesis =>
      rw [searchFrom] at matched
      split at matched
      · rename_i matchedHere
        rcases here (matched ▸ matchedHere) with ⟨final, passes, reads, same, behind_, rest, groups⟩
        exact ⟨final, [], passes, reads, same, by rw [behind_, List.append_nil], rest, groups⟩
      · rcases inductionHypothesis matched with
          ⟨final, skipped, passes, reads, same, behind_, rest, groups⟩
        refine ⟨final, c :: skipped, ?_, ?_, ?_, ?_, rest, groups⟩
        · rwa [List.reverse_cons, List.append_assoc]
        · rwa [List.reverse_cons, List.append_assoc]
        · rw [same]
          rfl
        · rw [behind_, List.reverse_cons, List.append_assoc]
          rfl

/-- What a search finds is a match in its place in the text. -/
theorem search_eq_some {regex : Regex} {text : List Char} {found : Match}
    (matched : regex.search text = some found) :
    text = found.before ++ found.whole ++ found.after ∧ Exists fun final : Cursor =>
      Passes regex ⟨found.before.reverse, found.whole ++ found.after, []⟩ final ∧
      Cursor.Reads ⟨found.before.reverse, found.whole ++ found.after, []⟩ found.whole final ∧
      found.groups = final.groups := by
  rcases searchFrom_eq_some matched with ⟨final, skipped, passes, reads, same, behind_, _, groups⟩
  rw [List.reverse_nil, List.nil_append] at behind_
  rw [List.append_nil] at passes reads
  rw [behind_]
  exact ⟨same, final, passes, reads, groups⟩

theorem fullMatch_eq_some {regex : Regex} {text : List Char} {found : Match}
    (matched : regex.fullMatch text = some found) :
    Exists fun final : Cursor => Passes regex (.start text) final ∧
      Cursor.Reads (.start text) text final ∧ found.groups = final.groups := by
  rcases Option.map_eq_some_iff.mp matched with ⟨final, first, rfl⟩
  have passes := Passes.of_mem (List.mem_of_find?_eq_some first)
  have ended : final.after = [] := by
    have test := List.find?_some first
    exact List.isEmpty_iff.mp test
  rcases passes.reads with ⟨read, reads⟩
  have whole : read = text := by
    have same := reads.1
    rw [ended, List.append_nil] at same
    exact same.symm
  exact ⟨final, passes, whole ▸ reads, rfl⟩

/-- What is left and what the groups have matched are parts of the text. -/
def Cursor.PartOf (text : List Char) (cursor : Cursor) : Prop :=
  cursor.after <:+: text ∧
    forall number captured, (number, captured) ∈ cursor.groups -> captured <:+: text

theorem Cursor.PartOf.start {text part : List Char} (inside : part <:+: text) (before : List Char) :
    Cursor.PartOf text ⟨before, part, []⟩ :=
  ⟨inside, fun _ _ member => absurd member List.not_mem_nil⟩

theorem Passes.partOf {regex : Regex} {text : List Char} {cursor final : Cursor}
    (passes : Passes regex cursor final) (start : cursor.PartOf text) : final.PartOf text := by
  induction passes with
  | empty cursor => exact start
  | one _ before after groups => exact ⟨(List.suffix_cons _ _).isInfix.trans start.1, start.2⟩
  | seq _ _ front back => exact back (front start)
  | altFirst _ _ inductionHypothesis => exact inductionHypothesis start
  | altSecond _ _ inductionHypothesis => exact inductionHypothesis start
  | starDone _ _ cursor => exact start
  | starMore _ _ front back => exact back (front start)
  | group number inside inductionHypothesis =>
      refine ⟨(inductionHypothesis start).1, fun other captured member => ?_⟩
      rcases List.mem_cons.mp member with here | before
      · cases here
        exact (List.take_prefix _ _).isInfix.trans start.1
      · exact (inductionHypothesis start).2 other captured before
  | backReference _ before text after groups _ =>
      exact ⟨(List.suffix_append _ _).isInfix.trans start.1, start.2⟩
  | ahead _ inductionHypothesis => exact ⟨start.1, (inductionHypothesis start).2⟩
  | notAhead _ => exact start
  | behind _ => exact start
  | notBehind _ => exact start
  | lineStart _ => exact start
  | lineEnd _ => exact start

theorem Cursor.PartOf.group {text : List Char} {final : Cursor} (part : final.PartOf text) {found : Match}
    (groups : found.groups = final.groups) (number : Nat) : found.group number <:+: text := by
  rw [Match.group, groups]
  cases captured : final.groups.lookup number with
  | none => exact List.nil_infix
  | some inner =>
      rcases List.lookup_eq_some_iff.mp captured with ⟨first, later, split, _⟩
      apply part.2 number inner
      rw [split]
      exact List.mem_append_right _ List.mem_cons_self

/-- What a search finds is made of parts of the text. -/
theorem search_within {regex : Regex} {text : List Char} {found : Match}
    (matched : regex.search text = some found) : found.before <:+: text ∧ found.whole <:+: text ∧
      found.after <:+: text ∧ forall number, found.group number <:+: text := by
  rcases search_eq_some matched with ⟨whole, final, passes, _, groups⟩
  have behind_ : found.whole ++ found.after <:+: text := by
    rw [whole, List.append_assoc]
    exact (List.suffix_append _ _).isInfix
  refine ⟨?_, (List.prefix_append _ _).isInfix.trans behind_,
    (List.suffix_append _ _).isInfix.trans behind_, fun number => ?_⟩
  · rw [whole, List.append_assoc]
    exact (List.prefix_append _ _).isInfix
  · exact (passes.partOf (.start behind_ _)).group groups number

theorem fullMatch_within {regex : Regex} {text : List Char} {found : Match}
    (matched : regex.fullMatch text = some found) (number : Nat) : found.group number <:+: text := by
  rcases fullMatch_eq_some matched with ⟨final, passes, _, groups⟩
  exact (passes.partOf (.start List.infix_rfl _)).group groups number

/-- A group is shorter than the text by what is read before it. -/
theorem fullMatch_group_shorter {front body back : Regex} {number : Nat} {text : List Char}
    {found : Match} (kept : back.avoids number = true)
    (matched : (front ++ .group number body ++ back).fullMatch text = some found) :
    (found.group number).length + front.shortest ≤ text.length := by
  rcases fullMatch_eq_some matched with ⟨final, passes, _, groups⟩
  cases passes with | seq passes last =>
  cases passes with | seq first captured =>
  rcases captured.of_group with ⟨inner, captured, _, readsInner, same⟩
  have has : found.group number = captured := by
    rw [Match.group, groups, last.lookup_of_avoids kept, same, List.lookup_cons, beq_self_eq_true]
    rfl
  have before : front.shortest + _ ≤ text.length := first.shortest_le
  have length := congrArg List.length readsInner.1
  rw [List.length_append] at length
  rw [has]
  omega

/-- A text without the characters that the expression needs has no match. -/
theorem search_eq_none_of_needs {property : Char -> Bool} {regex : Regex}
    (needed : regex.needs property = true) {text : List Char}
    (free : forall c, c ∈ text -> property c = false) : regex.search text = none := by
  cases matched : regex.search text with
  | none => rfl
  | some found =>
      rcases search_eq_some matched with ⟨same, final, passes, _, _⟩
      rcases passes.of_needs needed with ⟨front, c, back, has, inside⟩
      have member : c ∈ text := by
        rw [same, List.append_assoc, show found.whole ++ found.after = _ from inside]
        simp
      rw [free c member] at has
      cases has

theorem fullMatch_eq_none_of_needs {property : Char -> Bool} {regex : Regex}
    (needed : regex.needs property = true) {text : List Char}
    (free : forall c, c ∈ text -> property c = false) : regex.fullMatch text = none := by
  cases matched : regex.fullMatch text with
  | none => rfl
  | some found =>
      rcases fullMatch_eq_some matched with ⟨final, passes, _, _⟩
      rcases passes.of_needs needed with ⟨front, c, back, has, inside⟩
      have member : c ∈ text := by
        rw [show text = (Cursor.start text).after from rfl, inside]
        simp
      rw [free c member] at has
      cases has

/-- A text that starts with another character than the expression is no match. -/
theorem fullMatch_eq_none_of_opens {property : Char -> Bool} {regex : Regex}
    (open_ : regex.opens property = true) {text : List Char}
    (other : text.head?.any property = false) : regex.fullMatch text = none := by
  cases matched : regex.fullMatch text with
  | none => rfl
  | some found =>
      rcases fullMatch_eq_some matched with ⟨final, passes, _, _⟩
      have started : text.head?.any property = true := passes.of_opens open_
      rw [other] at started
      cases started

/-- A match of a text that is not empty reads something, and starts as the expression
may start. -/
theorem fullMatch_eq_none_of_mayOpen {property : Char -> Bool} {regex : Regex}
    (may : regex.mayOpen property = true) {text : List Char} (nonempty : text ≠ [])
    (other : text.head?.any property = false) : regex.fullMatch text = none := by
  cases matched : regex.fullMatch text with
  | none => rfl
  | some found =>
      rcases fullMatch_eq_some matched with ⟨final, passes, reads, _⟩
      rcases passes.of_mayOpen may with nothing | started
      · have whole := reads.1
        rw [nothing] at whole
        exact absurd (List.self_eq_append_left.mp whole) nonempty
      · rw [show (Cursor.start text).after = text from rfl, other] at started
        cases started

/-- An anchored expression is found at the start of the text only, when the text is one
line. -/
theorem search_lineStart_eq_none {property : Char -> Bool} {regex : Regex}
    (open_ : regex.opens property = true) {text : List Char}
    (other : text.head?.any property = false)
    (oneLine : forall c, c ∈ text -> isSeparator c = false) :
    (lineStart ++ regex).search text = none := by
  cases matched : (lineStart ++ regex).search text with
  | none => rfl
  | some found =>
      rcases search_eq_some matched with ⟨same, final, passes, _, _⟩
      cases passes with
      | seq front back =>
          cases front with
          | lineStart starts =>
              have top : found.before = [] := by
                rcases List.eq_nil_or_concat found.before with empty | ⟨front, last, whole⟩
                · exact empty
                · rw [List.concat_eq_append] at whole
                  have member : last ∈ text := by
                    rw [same, whole]
                    simp
                  rw [whole, List.reverse_append, List.reverse_singleton, List.singleton_append,
                    List.head?_cons, Option.all_some, oneLine last member] at starts
                  cases starts
              have started := back.of_opens open_
              rw [top, List.nil_append] at same
              rw [← same, other] at started
              cases started

theorem matches_of_none {regex : Regex} {text : List Char} (none_ : regex.search text = none) :
    regex.matches_ text = ([], text) := by
  unfold matches_
  cases text.length with
  | zero => rfl
  | succ rounds => rw [searchAll, none_]

/-- The matches and the texts between them are the whole text. -/
theorem flatMap_searchAll (regex : Regex) (rounds : Nat) (text : List Char) :
    (regex.searchAll rounds text).1.flatMap (fun found => found.before ++ found.whole) ++
      (regex.searchAll rounds text).2 = text := by
  induction rounds generalizing text with
  | zero => rfl
  | succ rounds inductionHypothesis =>
      rw [searchAll]
      cases matched : regex.search text with
      | none => rfl
      | some found =>
          dsimp only
          rw [List.flatMap_cons, List.append_assoc, inductionHypothesis]
          exact (search_eq_some matched).1.symm

theorem flatMap_matches (regex : Regex) (text : List Char) :
    (regex.matches_ text).1.flatMap (fun found => found.before ++ found.whole) ++
      (regex.matches_ text).2 = text :=
  flatMap_searchAll regex text.length text

/-- Every match comes from a search. -/
theorem exists_search_of_mem {regex : Regex} {text : List Char} {found : Match}
    (member : found ∈ (regex.matches_ text).1) :
    Exists fun suffix : List Char => regex.search suffix = some found := by
  have every : forall (rounds : Nat) (text : List Char),
      found ∈ (regex.searchAll rounds text).1 ->
        Exists fun suffix : List Char => regex.search suffix = some found := by
    intro rounds
    induction rounds with
    | zero =>
        intro text member
        cases member
    | succ rounds inductionHypothesis =>
        intro text member
        rw [searchAll] at member
        cases matched : regex.search text with
        | none =>
            rw [matched] at member
            cases member
        | some first =>
            rw [matched] at member
            rcases List.mem_cons.mp member with rfl | later
            · exact ⟨text, matched⟩
            · exact inductionHypothesis first.after later
  exact every text.length text member

/-- All matches, and the text behind them, are made of parts of the text. -/
theorem searchAll_within (regex : Regex) (rounds : Nat) (text : List Char) :
    (forall found, found ∈ (regex.searchAll rounds text).1 -> found.before <:+: text ∧
      found.whole <:+: text ∧ forall number, found.group number <:+: text) ∧
    (regex.searchAll rounds text).2 <:+: text := by
  induction rounds generalizing text with
  | zero => exact ⟨fun _ member => absurd member List.not_mem_nil, List.infix_rfl⟩
  | succ rounds inductionHypothesis =>
      rw [searchAll]
      cases matched : regex.search text with
      | none => exact ⟨fun _ member => absurd member List.not_mem_nil, List.infix_rfl⟩
      | some found =>
          rcases search_within matched with ⟨before, whole, after, groups⟩
          rcases inductionHypothesis found.after with ⟨each, rest⟩
          refine ⟨fun other member => ?_, rest.trans after⟩
          rcases List.mem_cons.mp member with rfl | later
          · exact ⟨before, whole, groups⟩
          · rcases each other later with ⟨beforeToo, wholeToo, groupsToo⟩
            exact ⟨beforeToo.trans after, wholeToo.trans after, fun number => (groupsToo number).trans after⟩

theorem matches_within (regex : Regex) (text : List Char) :
    (forall found, found ∈ (regex.matches_ text).1 -> found.before <:+: text ∧
      found.whole <:+: text ∧ forall number, found.group number <:+: text) ∧
    (regex.matches_ text).2 <:+: text :=
  searchAll_within regex text.length text

end Regex
end Webserver
