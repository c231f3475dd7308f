import Webserver.Storage.Writes

namespace Webserver
namespace Storage

open Disk FileSystem Programs

/-!
# The steps of a call

`writeFile` makes directories before it opens its file, and `deleteFile` opens the file
before it removes it.  Between the two another thread can have its turn.  `FsStep` lists
what a thread does in one turn: reading a file or a directory, making the directories of a
path, opening a file with what is written to it, and removing.

A thread that nothing interrupts does in these steps what `exec` says.
-/

inductive FsStep where
  | openInput (path : Text)
  | readFile (path : Text)
  | listFiles (path : Text)
  /-- `fs::exists` and `fs::create_directories`. -/
  | makeWay (directory : Text)
  /-- Open for output and write. -/
  | store (path data : Text)
  /-- Open for output, as `deleteFile` does to see whether there is a file. -/
  | openOutput (path : Text)
  | remove (path : Text)
deriving DecidableEq

namespace FsStep

@[reducible] def Reply : FsStep -> Type
  | openInput _ => Option Text
  | readFile _ => Bool × Text
  | listFiles _ => Bool × Text
  | makeWay _ => Unit
  | store _ _ => Bool
  | openOutput _ => Bool
  | remove _ => Bool

/-- The meaning of a step on a disk. -/
def exec (environment : Environment) (step : FsStep) (disk : Disk) :
    Except Fault step.Reply × Disk :=
  match step with
  | .openInput path => (.ok (disk.openInput path), disk)
  | .readFile path => (.ok (FileSystem.readFile path disk), disk)
  | .listFiles path => (.ok (FileSystem.listFiles environment path disk), disk)
  | .makeWay directory =>
      let made := FileSystem.makeWay environment directory disk
      (if made.1 = false then .error .filesystemError else .ok (), made.2)
  | .store path data =>
      let opened := disk.openOutput environment path
      if opened.1 = false then (.ok false, opened.2)
      else (.ok true, opened.2.write environment path data)
  | .openOutput path =>
      let opened := disk.openOutput environment path
      (.ok opened.1, opened.2)
  | .remove path =>
      let removed := disk.remove environment path
      (.ok removed.1, removed.2)

end FsStep

/-- What is left to do of a handler, step by step. -/
abbrev Stepping (A : Type) := Program FsStep FsStep.Reply Fault A

/-- The steps of a call, in the order of the source. -/
def FsCall.steps (call : FsCall) : Stepping call.Reply :=
  match call with
  | .openInput path => Program.perform (FsStep.openInput path)
  | .readFile path => Program.perform (FsStep.readFile path)
  | .listFiles path => Program.perform (FsStep.listFiles path)
  | .writeFile path data =>
      if (splitPath path).2 = [] then pure false
      else do
        let _ <- Program.perform (FsStep.makeWay (splitPath path).1)
        Program.perform (FsStep.store (openedPath path) data)
  | .deleteFile path => do
      let opened <- Program.perform (FsStep.openOutput path)
      if opened = false ∨ path = [] then pure false
      else Program.perform (FsStep.remove path)

/-- A handler's computation in steps. -/
def Handling.stepwise {A : Type} (handling : Handling A) : Stepping A :=
  Program.expand FsCall.steps handling

/-- Without interruption the steps of a call do what the call does. -/
theorem run_steps (environment : Environment) (call : FsCall) (disk : Disk) :
    call.steps.run FsStep.exec (fun _ => environment) disk =
      FileSystem.exec environment call disk := by
  cases call with
  | openInput path => rfl
  | readFile path => rfl
  | listFiles path => rfl
  | writeFile path data =>
      change _ = writeFile environment path data disk
      rw [writeFile_eq, FsCall.steps]
      split
      · rfl
      · change Program.run FsStep.exec (fun _ => environment) (.call (.makeWay (splitPath path).1)
          (fun _ => Program.perform (FsStep.store (openedPath path) data))) disk = _
        rw [Program.run, FsStep.exec]
        dsimp only
        by_cases made : (makeWay environment (splitPath path).1 disk).1 = false
        · rw [if_pos made, if_pos made]
        · rw [if_neg made, if_neg made]
          exact Program.run_perform FsStep.exec _ (.store (openedPath path) data) _
  | deleteFile path =>
      change Program.run FsStep.exec (fun _ => environment)
          (if (disk.openOutput environment path).1 = false ∨ path = [] then pure false
            else Program.perform (FsStep.remove path)) (disk.openOutput environment path).2 =
        (.ok (deleteFile environment path disk).1, (deleteFile environment path disk).2)
      rw [deleteFile]
      by_cases refused : (disk.openOutput environment path).1 = false ∨ path = []
      · rw [if_pos refused]
        simp only [if_pos refused]
        rfl
      · rw [if_neg refused]
        simp only [if_neg refused]
        exact Program.run_perform FsStep.exec _ (.remove path) _

/-- A handler that nothing interrupts does in steps what it does in calls. -/
theorem exists_run_stepwise {A : Type} (handling : Handling A) (environments : Nat -> Environment)
    (disk : Disk) :
    Exists fun stepEnvironments : Nat -> Environment =>
      handling.stepwise.run FsStep.exec stepEnvironments disk =
        FileSystem.run environments handling disk :=
  Program.exists_run_expand run_steps handling environments disk

end Storage
end Webserver
