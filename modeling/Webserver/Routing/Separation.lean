import Webserver.Library.Interleavings
import Webserver.Routing.Confinement
import Webserver.Storage.Subtrees

namespace Webserver
namespace Routing

open Handlers Http LexicalPaths Programs Storage

/-!
# Requests under different roots

The pool's threads serve requests at the same time, and their steps reach the same
storage.  Requests whose handlers have roots apart from each other do not notice:
responses and files under one root are those of a run in which only the requests
under that root are served.

What a request finds outside storage comes with it: how the converter ends on a text, and
what its uninitialised variables hold.
-/

/-- A request with the handler that has been built for it. -/
structure Job where
  handler : RequestHandler
  req : Request
  convert : Text -> Except Fault Text
  junk : Nat -> CInt

/-- The requests as threads on one storage. -/
def jobPool (jobs : List Job) (disk : Disk) : Pool FsStep FsStep.Reply Fault Response Disk :=
  ⟨jobs.map (fun job => (job.handler.handleRequest job.convert job.junk job.req {}).stepwise), disk⟩

/-- The thread with this index serves a request under the root. -/
def underRoot (root : Text) (jobs : List Job) (index : Nat) : Bool :=
  (jobs[index]?).any (fun job => job.handler.root == some root)

/-- The handler of the job has no root, or its root keeps its directory when a path is
taken apart and the names in the request stay below it. -/
def Job.Below (job : Job) : Prop :=
  forall root, job.handler.root = some root -> Anchored root ∧ job.handler.NamesBelow job.req

/-- A handler without a root calls nothing. -/
theorem handleRequest_of_noRoot {handler : RequestHandler} (rootless : handler.root = none)
    (convert : Text -> Except Fault Text) (junk : Nat -> CInt) (req : Request) (res : Response)
    (allowed : FsCall -> Prop) : (handler.handleRequest convert junk req res).CallsOnly allowed := by
  cases handler with
  | static handler => cases rootless
  | crud handler => cases rootless
  | markdown handler => cases rootless
  | echo => exact trivial
  | error => exact trivial
  | health => exact trivial
  | sleep root fileName => exact trivial

/-- The steps of a handler with a root are near that root. -/
theorem handleRequest_within {handler : RequestHandler} {root : Text}
    (configured : handler.root = some root) (anchored : Anchored root) {req : Request}
    (below : handler.NamesBelow req) (disk : Disk) (convert : Text -> Except Fault Text)
    (junk : Nat -> CInt) (res : Response) :
    (handler.handleRequest convert junk req res).stepwise.CallsOnly (disk.Within root) :=
  disk.within_stepwise anchored (handleRequest_confined handler convert junk req res configured below)

/-- Requests under roots apart from each other do not interfere.  Under every
interleaving of all requests, the requests under one root end as they do when only
their own steps are taken, in the same order, and the storage below that root is the
same. -/
theorem roots_do_not_interfere (jobs : List Job) (disk : Disk) (root : Text)
    (there : disk.nodeAt root = some .directory)
    (below : forall job, job ∈ jobs -> job.Below)
    (apart : forall job, job ∈ jobs -> forall other, job.handler.root = some other -> other ≠ root ->
      disk.Apart other root)
    (schedule : List (Nat × Environment)) :
    let whole := (jobPool jobs disk).run FsStep.exec schedule
    let alone := (jobPool jobs disk).run FsStep.exec
      (schedule.filter (fun turn => underRoot root jobs turn.1))
    (forall index, underRoot root jobs index = true -> alone.threads[index]? = whole.threads[index]?) ∧
      forall key, disk.key root <+: key -> alone.shared.node key = whole.shared.node key := by
  -- What the threads of other roots do.
  let elsewhere : FsStep -> Prop := fun step =>
    Exists fun other : Text => disk.Apart other root ∧ disk.Within other step
  have divided : (jobPool jobs disk).Divided (underRoot root jobs) (disk.Within root) elsewhere := by
    intro index program present
    change (jobs.map _)[index]? = some program at present
    rw [List.getElem?_map, Option.map_eq_some_iff] at present
    rcases present with ⟨job, here, rfl⟩
    have member := List.mem_of_getElem? here
    rw [underRoot, here, Option.any_some]
    cases configured : job.handler.root with
    | none =>
        have nothing := handleRequest_of_noRoot configured job.convert job.junk job.req {} (fun _ => False)
        exact Program.CallsOnly.expand nothing (fun _ impossible => impossible.elim)
    | some other =>
        rcases below job member other configured with ⟨anchoredToo, names⟩
        have within := handleRequest_within configured anchoredToo names disk job.convert job.junk {}
        by_cases same : other = root
        · rw [if_pos (by simp [same]), ← same]
          exact within
        · rw [if_neg (by simpa using same)]
          exact within.mono (fun _ near => ⟨other, apart job member other configured same, near⟩)
  have owns : forall (choice : Environment) (step : FsStep) (first second : Disk),
      disk.Within root step -> SameBelow disk root first second ->
      (step.exec choice second).1 = (step.exec choice first).1 ∧
        SameBelow disk root (step.exec choice first).2 (step.exec choice second).2 :=
    fun choice step first second within same => same.exec within choice
  have others : forall (choice : Environment) (step : FsStep) (first second : Disk),
      elsewhere step -> SameBelow disk root first second ->
        SameBelow disk root (step.exec choice first).2 second := by
    rintro choice step first second ⟨other, apart, within⟩ same
    exact same.exec_other apart within choice
  have result := Pool.run_separate owns others ⟨divided, fun _ _ => rfl, .refl there⟩ schedule
  exact ⟨result.same, result.agrees.nodes⟩

/-- A request that stores an entity below a root. -/
def sampleJob (root : Text) : Job :=
  ⟨.crud ⟨"/api".toList, root⟩, ⟨.put, "/api/Shoes/1".toList, "x".toList⟩, .ok, fun _ => CInt.zero⟩

/-- Two roots next to the directory in which the server runs. -/
def sampleRoots : Disk :=
  { ((Disk.empty.place ["run".toList] .directory).place ["a".toList] .directory).place ["b".toList]
      .directory with cwd := ["run".toList] }

theorem sampleJobs_separate :
    let jobs := [sampleJob "../a".toList, sampleJob "../b".toList]
    let schedule := [(1, Environment.willing), (0, Environment.willing), (1, Environment.willing),
      (0, Environment.willing)]
    let whole := (jobPool jobs sampleRoots).run FsStep.exec schedule
    let alone := (jobPool jobs sampleRoots).run FsStep.exec
      (schedule.filter (fun turn => underRoot "../a".toList jobs turn.1))
    (forall index, underRoot "../a".toList jobs index = true ->
      alone.threads[index]? = whole.threads[index]?) ∧
      forall key, sampleRoots.key "../a".toList <+: key -> alone.shared.node key = whole.shared.node key := by
  refine roots_do_not_interfere _ sampleRoots "../a".toList rfl ?_ ?_ _
  · simp only [List.mem_cons, List.not_mem_nil, or_false]
    rintro job (rfl | rfl) root configured
    · cases configured
      exact ⟨by decide, by decide⟩
    · cases configured
      exact ⟨by decide, by decide⟩
  · simp only [List.mem_cons, List.not_mem_nil, or_false]
    rintro job (rfl | rfl) other configured different
    · cases configured
      exact absurd rfl different
    · cases configured
      decide

end Routing
end Webserver
