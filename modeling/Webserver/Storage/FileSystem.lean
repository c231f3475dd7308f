import Webserver.Library.Programs
import Webserver.Storage.Disk

namespace Webserver
namespace Storage

open LexicalPaths Programs

/-!
# The `FileSystem` class and the calls that handlers make

Handlers reach storage through the four methods of `FileSystemInterface`; the
static file handler opens an `fstream` of its own.  `FsCall` lists these five
operations.  A handler is a program over them, so that a statement about a
handler can range over every implementation of the interface.

The second half is the class `FileSystem`, which implements the interface with
system calls.  `exec` is its meaning on a disk while no other thread has a turn.
-/

/-- What a handler can ask of storage. -/
inductive FsCall where
  /-- `req_file.open(path, std::ios::in)`, done by the static file handler. -/
  | openInput (path : Text)
  | readFile (path : Text)
  | writeFile (path data : Text)
  | deleteFile (path : Text)
  | listFiles (path : Text)
deriving DecidableEq

namespace FsCall

/-- The path string that the call names. -/
def path : FsCall -> Text
  | openInput path => path
  | readFile path => path
  | writeFile path _ => path
  | deleteFile path => path
  | listFiles path => path

/-- The reply: the returned flag, with the value of the output argument after
the call where there is one. -/
@[reducible] def Reply : FsCall -> Type
  | openInput _ => Option Text
  | readFile _ => Bool × Text
  | writeFile _ _ => Bool
  | deleteFile _ => Bool
  | listFiles _ => Bool × Text

end FsCall

/-- A computation of a handler. -/
abbrev Handling (A : Type) := Program FsCall FsCall.Reply Fault A

/-- What the loop `while (getline(file, line)) content += line + "\n"` collects. -/
def getlines (content : Text) : Text :=
  (Strings.lines '\n' content).flatMap (fun line => line ++ ['\n'])

/-- Reading line by line closes the last line. -/
theorem getlines_eq (content : Text) :
    getlines content =
      if Strings.Terminated '\n' content then content else content ++ ['\n'] :=
  Strings.flatMap_lines '\n' content

/-- Reading line by line delivers the content itself exactly when it is empty
or ends in a newline. -/
theorem getlines_eq_self_iff (content : Text) :
    getlines content = content ↔ Strings.Terminated '\n' content := by
  rw [getlines_eq]
  split
  · rename_i closed
    exact ⟨fun _ => closed, fun _ => rfl⟩
  · rename_i notClosed
    constructor
    · intro same
      have longer := congrArg List.length same
      simp at longer
    · intro closed
      exact absurd closed notClosed

namespace FileSystem

def readFile (path : Text) (disk : Disk) : Bool × Text :=
  match disk.openInput path with
  | none => (false, [])
  | some content => if path = [] then (false, []) else (true, getlines content)

/-- The part of `writeFile` that takes the path apart into directory and file. -/
def splitPath (path : Text) : Text × Text :=
  match Strings.findLast '/' path with
  | none => ([], path)
  | some last =>
      if last = 0 then ([], path)
      else if last = path.length - 1 then
        let withoutTrailing := path.take (last - 1)
        match Strings.findLast '/' withoutTrailing with
        | some next => (path.take next, (path.drop (next + 1)).take (last - (next + 1)))
        | none => ([], withoutTrailing)
      else (path.take last, path.drop (last + 1))

def writeFile (environment : Environment) (path data : Text) (disk : Disk) :
    Except Fault Bool × Disk :=
  let (directory, file) := splitPath path
  if file = [] then (.ok false, disk)
  else
    let newPath := directory ++ '/' :: file
    let made :=
      if directory ≠ [] ∧ disk.pathExists directory = false then
        disk.createDirectories environment directory
      else (true, disk)
    if made.1 = false then (.error .filesystemError, made.2)
    else
      let opened := made.2.openOutput environment newPath
      if opened.1 = false then (.ok false, opened.2)
      else (.ok true, opened.2.write environment newPath data)

def deleteFile (environment : Environment) (path : Text) (disk : Disk) : Bool × Disk :=
  let opened := disk.openOutput environment path
  if opened.1 = false ∨ path = [] then (false, opened.2)
  else opened.2.remove environment path

/-- The names that do not start with a dot, each followed by a comma. -/
def joinNames (names : List Name) : Text :=
  (names.filter (fun name => name.head? != some '.')).flatMap (fun name => name ++ [','])

def listFiles (environment : Environment) (path : Text) (disk : Disk) : Bool × Text :=
  match disk.readDir environment path with
  | none => (false, [])
  | some names => (true, joinNames names)

/-- The meaning of a call on a disk. -/
def exec (environment : Environment) (call : FsCall) (disk : Disk) :
    Except Fault call.Reply × Disk :=
  match call with
  | .openInput path => (.ok (disk.openInput path), disk)
  | .readFile path => (.ok (readFile path disk), disk)
  | .writeFile path data => writeFile environment path data disk
  | .deleteFile path =>
      let outcome := deleteFile environment path disk
      (.ok outcome.1, outcome.2)
  | .listFiles path => (.ok (listFiles environment path disk), disk)

/-- Run a handler's computation over the class `FileSystem`. -/
def run {A : Type} (environments : Nat -> Environment) (handling : Handling A) (disk : Disk) :
    Except Fault A × Disk :=
  Program.run exec environments handling disk

end FileSystem
end Storage
end Webserver
