import Webserver.Handlers.CrudRequests
import Webserver.Storage.Writes

namespace Webserver
namespace Handlers

open Http LexicalPaths Programs Storage

/-!
# CRUD requests one after another

A client who looks only at the answers can keep a ledger: the body that was
last written under each name and not deleted since.  A run serves requests on
one disk and keeps this ledger beside it.  The invariant says that the disk
holds every body of the ledger as a file, byte for byte.

A body is returned by `retrieve` through `getlines`, which closes its last line.
Reading after writing therefore returns the body itself exactly when it is empty
or ends in a newline.
-/

/-- The bodies that the answers so far have promised. -/
abbrev Ledger := Name -> Name -> Option Text

namespace Ledger

def empty : Ledger := fun _ _ => none

def set (ledger : Ledger) (entity id : Name) (body : Option Text) : Ledger :=
  fun otherEntity otherId =>
    if entity = otherEntity ∧ id = otherId then body else ledger otherEntity otherId

end Ledger

/-- The id in the body of an answer to a `POST`. -/
def returnedId (res : Response) : Name := (res.body.drop 8).takeWhile (fun c => c != ' ')

/-- The ledger after an answer.  A `DELETE` ends what the client may rely on,
whatever became of it. -/
def Ledger.record (ledger : Ledger) (op : CrudOp) (answer : Except Fault Response) : Ledger :=
  match op, answer with
  | .put entity id body, .ok res =>
      if res.result = .ok then ledger.set entity id (some body) else ledger
  | .post entity body, .ok res =>
      if res.result = .created then ledger.set entity (returnedId res) (some body) else ledger
  | .delete entity id, _ => ledger.set entity id none
  | _, _ => ledger

/-- A request with everything that it does not determine itself. -/
structure CrudTurn where
  op : CrudOp
  junk : Nat -> CInt
  environments : Nat -> Environment

/-- The request's names are valid, and what is written is stored completely. -/
def CrudTurn.Ordinary (turn : CrudTurn) : Prop :=
  turn.op.ValidNames ∧ forall index, (turn.environments index).writeLimit = none

namespace CrudRequestHandler

variable (handler : CrudRequestHandler)

def serveTurn (state : Ledger × Disk) (turn : CrudTurn) : Ledger × Disk :=
  let outcome := handler.perform turn.junk turn.environments turn.op state.2
  (state.1.record turn.op outcome.1, outcome.2)

/-- Serve requests one after another. -/
def serveTurns (turns : List CrudTurn) (state : Ledger × Disk) : Ledger × Disk :=
  turns.foldl handler.serveTurn state

/-- The key of an entity's member. -/
def memberKey (disk : Disk) (entity id : Name) : Key :=
  disk.key handler.dataPath ++ [entity, id]

theorem memberKey_injective {disk : Disk} {entity id otherEntity otherId : Name}
    (same : handler.memberKey disk entity id = handler.memberKey disk otherEntity otherId) :
    entity = otherEntity ∧ id = otherId := by
  have tails := List.append_cancel_left same
  simpa using tails

theorem memberKey_congr {first second : Disk} (same : second.cwd = first.cwd)
    (entity id : Name) : handler.memberKey second entity id = handler.memberKey first entity id := by
  rw [memberKey, memberKey, Disk.key_congr same]

theorem key_entityPath_append (configured : handler.dataPath ≠ []) {entity : Name}
    (valid : ValidName entity) (id : Name) (disk : Disk) :
    disk.key (handler.entityPath entity) ++ [id] = handler.memberKey disk entity id := by
  rw [handler.key_entityPath configured valid, List.append_assoc]
  rfl

theorem key_member (configured : handler.dataPath ≠ []) {entity id : Name}
    (validEntity : ValidName entity) (validId : ValidName id) (disk : Disk) :
    disk.key (handler.entityPath entity ++ '/' :: id) = handler.memberKey disk entity id := by
  rw [disk.key_append_name (handler.entityPath_ne_nil entity validEntity.1.1) validId.1,
    handler.key_entityPath_append configured validEntity]

/-! ## Chosen ids -/

theorem validName_chosen {junk : Nat -> CInt} {fileList : Text} {id : CInt}
    (chosen : chooseId junk fileList = .ok id) : ValidName id.toText := by
  rw [toText_of_chosen chosen]
  refine ⟨plain_append_digits List.not_mem_nil _, ?_⟩
  intro member
  have digit := CInt.isDigit_of_mem_toDigits member
  revert digit
  decide

theorem returnedId_created {junk : Nat -> CInt} {fileList : Text} {id : CInt}
    (chosen : chooseId junk fileList = .ok id) : returnedId (createdResponse id) = id.toText := by
  have body : (createdResponse id).body.drop 8 = id.toText ++ ' ' :: "\x7d\n".toList := rfl
  rw [returnedId, body, List.takeWhile_append_of_pos]
  · simp
  · intro c member
    rw [toText_of_chosen chosen] at member
    have digit := CInt.isDigit_of_mem_toDigits member
    have different : c ≠ ' ' := by
      rintro rfl
      revert digit
      decide
    simpa using different

/-! ## What one request does to the disk and to the ledger -/

section Writing

variable {environment : Environment} {disk : Disk} {entity id : Name} {body : Text}

/-- A request that writes a member changes no other file, and its answer says
whether the member now holds the body. -/
theorem writeMember_cases (configured : handler.dataPath ≠ []) (validEntity : ValidName entity)
    (validId : ValidName id) (complete : environment.writeLimit = none) (success : Response) :
    let outcome := answerWrite success
      (FileSystem.writeFile environment (handler.entityPath entity ++ '/' :: id) body disk)
    (outcome.1 = .ok success ∧
      SameFilesExcept (handler.memberKey disk entity id) disk outcome.2 ∧
      outcome.2.nodeAt (handler.entityPath entity ++ '/' :: id) = some (.file body)) ∨
    ((outcome.1 = .ok { result := .internalServerError } ∨
        Exists fun fault : Fault => outcome.1 = .error fault) ∧
      SameFiles disk outcome.2) := by
  have named := handler.entityPath_ne_nil entity validEntity.1.1
  have cases_ := FileSystem.writeFile_cases environment named validId.1 body disk
  rw [handler.key_entityPath_append configured validEntity,
    Environment.stored_of_complete complete] at cases_
  intro outcome
  rcases cases_ with ⟨done, changed, stored⟩ | ⟨failed, same⟩
  · refine Or.inl ⟨?_, changed, stored⟩
    simp only [outcome, answerWrite, done]
    rfl
  · refine Or.inr ⟨?_, same⟩
    simp only [outcome, answerWrite]
    rcases answered : (FileSystem.writeFile environment
      (handler.entityPath entity ++ '/' :: id) body disk).1 with fault | written
    · exact Or.inr ⟨fault, rfl⟩
    · cases written with
      | false => exact Or.inl rfl
      | true => exact absurd answered failed

end Writing

/-- What a turn does: it stores one body and records it, it strikes one entry
and may change that file, or it changes no file and records nothing. -/
theorem serveTurn_cases (plain : '\x00' ∉ handler.location) {turn : CrudTurn}
    (ordinary : turn.Ordinary) (ledger : Ledger) (disk : Disk) :
    (Exists fun entity : Name => Exists fun id : Name => Exists fun body : Text =>
      handler.location ≠ [] ∧ handler.dataPath ≠ [] ∧ ValidName entity ∧ ValidName id ∧
      (handler.serveTurn (ledger, disk) turn).1 = ledger.set entity id (some body) ∧
      SameFilesExcept (handler.memberKey disk entity id) disk
        (handler.serveTurn (ledger, disk) turn).2 ∧
      (handler.serveTurn (ledger, disk) turn).2.nodeAt (handler.entityPath entity ++ '/' :: id) =
        some (.file body)) ∨
    (Exists fun entity : Name => Exists fun id : Name =>
      (handler.serveTurn (ledger, disk) turn).1 = ledger.set entity id none ∧
      SameFilesExcept (handler.memberKey disk entity id) disk
        (handler.serveTurn (ledger, disk) turn).2) ∨
    ((handler.serveTurn (ledger, disk) turn).1 = ledger ∧
      SameFiles disk (handler.serveTurn (ledger, disk) turn).2) := by
  rcases turn with ⟨op, junk, environments⟩
  rcases ordinary with ⟨valid, complete⟩
  by_cases unmounted : handler.location = [] ∨ handler.dataPath = []
  · rw [serveTurn, handler.perform_unmounted unmounted plain valid]
    right
    cases op with
    | delete entity id => exact Or.inl ⟨entity, id, rfl, (SameFiles.refl disk).except _⟩
    | _ => exact Or.inr ⟨rfl, SameFiles.refl disk⟩
  rcases not_or.mp unmounted with ⟨located, configured⟩
  cases op with
  | post entity body =>
      rw [serveTurn, handler.perform_post located configured plain valid]
      cases chosen : handler.chosenId junk (environments 0) entity disk with
      | error fault => exact Or.inr (Or.inr ⟨rfl, SameFiles.refl disk⟩)
      | ok currId =>
          rw [handler.chosenId_eq located configured] at chosen
          have validId := validName_chosen chosen
          rcases handler.writeMember_cases configured valid validId (complete 1)
              (createdResponse currId) with ⟨done, changed, stored⟩ | ⟨failed, same⟩
          · refine Or.inl ⟨entity, currId.toText, body, located, configured, valid, validId, ?_,
              changed, stored⟩
            simp only [done]
            rw [Ledger.record, if_pos (createdResponse_result currId), returnedId_created chosen]
          · refine Or.inr (Or.inr ⟨?_, same⟩)
            rcases failed with failed | ⟨fault, failed⟩ <;> simp only [failed] <;> rfl
  | put entity id body =>
      rw [serveTurn, handler.perform_put located configured plain valid.1 valid.2]
      rcases handler.writeMember_cases configured valid.1 valid.2 (complete 0)
          ({ result := .ok, version := 11 } : Response).preparePayload with
        ⟨done, changed, stored⟩ | ⟨failed, same⟩
      · refine Or.inl ⟨entity, id, body, located, configured, valid.1, valid.2, ?_, changed, stored⟩
        simp only [done]
        rfl
      · refine Or.inr (Or.inr ⟨?_, same⟩)
        rcases failed with failed | ⟨fault, failed⟩ <;> simp only [failed] <;> rfl
  | get entity id =>
      rw [serveTurn, handler.perform_get located configured plain valid.1 valid.2]
      exact Or.inr (Or.inr ⟨rfl, SameFiles.refl disk⟩)
  | delete entity id =>
      rw [serveTurn, handler.perform_delete located configured plain valid.1 valid.2]
      have changed := FileSystem.deleteFile_effect (environments 0)
        (handler.entityPath entity ++ '/' :: id) disk
      rw [Disk.key_append_name disk (handler.entityPath_ne_nil entity valid.1.1.1) valid.2.1,
        handler.key_entityPath_append configured valid.1] at changed
      exact Or.inr (Or.inl ⟨entity, id, rfl, changed⟩)

/-! ## The disk keeps what the ledger promises -/

/-- Every body of the ledger is found under its name. -/
def Faithful (state : Ledger × Disk) : Prop :=
  forall entity id body, state.1 entity id = some body ->
    handler.location ≠ [] ∧ handler.dataPath ≠ [] ∧ ValidName entity ∧ ValidName id ∧
      state.2.nodeAt (handler.entityPath entity ++ '/' :: id) = some (.file body)

theorem faithful_empty (disk : Disk) : handler.Faithful (Ledger.empty, disk) := by
  intro entity id body promised
  cases promised

/-- One turn keeps the ledger and the disk together. -/
theorem faithful_serveTurn (plain : '\x00' ∉ handler.location) {turn : CrudTurn}
    (ordinary : turn.Ordinary) {state : Ledger × Disk} (faithful : handler.Faithful state) :
    handler.Faithful (handler.serveTurn state turn) := by
  rcases state with ⟨ledger, disk⟩
  intro entity id body promised
  -- Where the changed member is another one, its key is another key.
  have untouched : forall (changedEntity changedId : Name) (after : Disk),
      SameFilesExcept (handler.memberKey disk changedEntity changedId) disk after ->
      ¬ (changedEntity = entity ∧ changedId = id) -> ledger entity id = some body ->
      handler.location ≠ [] ∧ handler.dataPath ≠ [] ∧ ValidName entity ∧ ValidName id ∧
        after.nodeAt (handler.entityPath entity ++ '/' :: id) = some (.file body) := by
    intro changedEntity changedId after changed different earlier
    rcases faithful entity id body earlier with ⟨located, configured, validEntity, validId, stored⟩
    refine ⟨located, configured, validEntity, validId, changed.nodeAt_file (fun same => ?_) stored⟩
    rw [handler.key_member configured validEntity validId] at same
    exact different (handler.memberKey_injective same)
  rcases handler.serveTurn_cases plain ordinary ledger disk with
    ⟨newEntity, newId, newBody, located, configured, validEntity, validId, recorded, changed,
      stored⟩ | ⟨oldEntity, oldId, struck, changed⟩ | ⟨recorded, same⟩
  · rw [recorded, Ledger.set] at promised
    by_cases this : newEntity = entity ∧ newId = id
    · rw [if_pos this] at promised
      rcases this with ⟨rfl, rfl⟩
      exact ⟨located, configured, validEntity, validId, Option.some.inj promised ▸ stored⟩
    · rw [if_neg this] at promised
      exact untouched newEntity newId _ changed this promised
  · rw [struck, Ledger.set] at promised
    by_cases this : oldEntity = entity ∧ oldId = id
    · rw [if_pos this] at promised
      cases promised
    · rw [if_neg this] at promised
      exact untouched oldEntity oldId _ changed this promised
  · rw [recorded] at promised
    rcases faithful entity id body promised with ⟨located, configured, validEntity, validId, stored⟩
    exact ⟨located, configured, validEntity, validId, same.nodeAt_file stored⟩

theorem faithful_serveTurns (plain : '\x00' ∉ handler.location) {turns : List CrudTurn}
    (ordinary : forall turn, turn ∈ turns -> turn.Ordinary) {state : Ledger × Disk}
    (faithful : handler.Faithful state) : handler.Faithful (handler.serveTurns turns state) := by
  induction turns generalizing state with
  | nil => exact faithful
  | cons turn rest inductionHypothesis =>
      refine inductionHypothesis (fun later member => ordinary later ?_) ?_
      · exact List.mem_cons_of_mem turn member
      · exact handler.faithful_serveTurn plain (ordinary turn List.mem_cons_self) faithful

/-- After any run, a `GET` of a name whose body is on the ledger answers 200,
and its body is the one last written exactly when that is empty or ends in a
newline. -/
theorem get_after_write (handler : CrudRequestHandler) (plain : '\x00' ∉ handler.location)
    (turns : List CrudTurn) (ordinary : forall turn, turn ∈ turns -> turn.Ordinary) (disk : Disk)
    (entity id : Name) (body : Text)
    (live : (handler.serveTurns turns (Ledger.empty, disk)).1 entity id = some body)
    (junk : Nat -> CInt) (environments : Nat -> Environment) :
    Exists fun res : Response =>
      handler.perform junk environments (.get entity id)
        (handler.serveTurns turns (Ledger.empty, disk)).2 =
          (.ok res, (handler.serveTurns turns (Ledger.empty, disk)).2) ∧
      res.result = .ok ∧ (res.body = body ↔ Strings.Terminated '\n' body) := by
  rcases handler.faithful_serveTurns plain ordinary (handler.faithful_empty disk) entity id body
      live with ⟨located, configured, validEntity, validId, stored⟩
  rw [handler.perform_get located configured plain validEntity validId, FileSystem.readFile_eq,
    stored]
  exact ⟨_, rfl, rfl, getlines_eq_self_iff body⟩

/-- A handler as the configurations mount it, and one `PUT`. -/
def sampleHandler : CrudRequestHandler := ⟨"/api".toList, "data".toList⟩

def putTurn (body : Text) : CrudTurn :=
  ⟨.put "shoes".toList "1".toList body, fun _ => CInt.zero, fun _ => Environment.willing⟩

theorem put_then_get_terminated :
    Exists fun res : Response =>
      sampleHandler.perform (fun _ => CInt.zero) (fun _ => Environment.willing)
        (.get "shoes".toList "1".toList)
        (sampleHandler.serveTurns [putTurn "a\n".toList] (Ledger.empty, Disk.empty)).2 =
          (.ok res, (sampleHandler.serveTurns [putTurn "a\n".toList]
            (Ledger.empty, Disk.empty)).2) ∧
      res.result = .ok ∧ (res.body = "a\n".toList ↔ Strings.Terminated '\n' "a\n".toList) :=
  get_after_write sampleHandler (by decide) [putTurn "a\n".toList]
    (by
      intro turn member
      rw [List.mem_singleton.mp member]
      exact ⟨by decide, fun _ => rfl⟩)
    Disk.empty "shoes".toList "1".toList "a\n".toList rfl _ _

/-- A body without a final newline comes back with one. -/
theorem put_then_get_unterminated :
    (sampleHandler.serveTurns [putTurn "a".toList] (Ledger.empty, Disk.empty)).1
      "shoes".toList "1".toList = some "a".toList ∧
    (sampleHandler.perform (fun _ => CInt.zero) (fun _ => Environment.willing)
      (.get "shoes".toList "1".toList)
      (sampleHandler.serveTurns [putTurn "a".toList] (Ledger.empty, Disk.empty)).2).1.map
        Response.body = .ok "a\n".toList :=
  ⟨rfl, rfl⟩

end CrudRequestHandler
end Handlers
end Webserver
