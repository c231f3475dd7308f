import Webserver.Handlers.MarkdownSave
import Webserver.Storage.NamedFiles

namespace Webserver
namespace Handlers

open Http Programs Storage

/-!
# A post that is saved as it was opened

Reading a post closes its last line, the form puts another line end behind the text, and
saving takes all line ends off again.  A text that does not end in one therefore comes
back as it is.  What is written is what the file holds, so that a write that is refused
does no harm either.
-/

/-- A text that does not end a line is read with one more line end. -/
theorem getlines_of_inLine {text : Text} {last : Char} (ends : text.getLast? = some last)
    (inLine : last ≠ '\n') : getlines text = text ++ ['\n'] := by
  rw [getlines_eq, if_neg]
  rintro (empty | closed)
  · rw [empty] at ends
    cases ends
  · exact inLine (Option.some.inj (ends.symm.trans closed))

namespace MarkdownRequestHandler

/-- Of a program that writes once and then reads, the write is what remains. -/
theorem WritesOnce.run {handling : Handling Response} {path data : Text}
    (writes : WritesOnce handling (.ok path) data) (environments : Nat -> Environment) (disk : Disk) :
    (FileSystem.run environments handling disk).2 =
      (FileSystem.writeFile (environments 0) path data disk).2 := by
  rcases writes with ⟨next, rfl, reads⟩
  rw [Program.ofExcept_ok, Program.done_bind, run_writeFile_bind]
  rcases FileSystem.writeFile (environments 0) path data disk with ⟨fault | written, after⟩
  · rfl
  · have keeps : forall environment (call : FsCall) (disk : Disk),
        (Exists fun path : Text => call = .readFile path) -> disk = after ->
          (FileSystem.exec environment call disk).2 = after := by
      rintro environment call disk ⟨path, rfl⟩ same
      exact same
    exact (reads written).run_keeps keeps _ rfl

variable (handler : MarkdownRequestHandler) (convert : Text -> Except Fault Text)

/-- Open a post and save what is shown, without a change. -/
def resave (path id : Text) (disk : Disk) (environments : Nat -> Environment) : Disk :=
  (FileSystem.run environments (handler.save convert
    ⟨.post, "/markdown/save".toList, saveBody id (FileSystem.readFile path disk).2⟩ {}) disk).2

section Resaving

variable {handler} {path id text : Text} {last : Char}
  (placed : handler.constructFilePath id = .ok path) (oneLine : OneLine id)
  (noField : ¬ "text=".toList <:+: id) (ends : text.getLast? = some last)
  (inLine : ¬ IsLineEnd last) {disk : Disk} (stored : disk.openInput path = some text)

include placed stored ends

/-- There is no file without a name. -/
theorem id_of_stored : id ≠ [] := by
  rintro rfl
  have nonempty : text ≠ [] := by
    rintro rfl
    cases ends
  have isFile := ((Disk.nodeAt_eq_file_iff _ _ _).mp
    ((FileSystem.openInput_eq_some_iff nonempty disk).mp stored)).2.2.1
  rw [eq_postPath_of_constructed placed, postPath] at isFile
  exact FileSystem.noSlash_of_isFile isFile (by simp)

include oneLine noField inLine

/-- The text that is shown is saved without the line end that reading has added. -/
theorem save_writesShown (req : Request)
    (isForm : req.body = saveBody id (FileSystem.readFile path disk).2) (res : Response) :
    WritesOnce (handler.save convert req res) (.ok path) text := by
  have shown : (FileSystem.readFile path disk).2 = text ++ ['\n'] := by
    rw [FileSystem.readFile_of_openInput stored]
    exact getlines_of_inLine ends (fun newline => inLine (Or.inl newline))
  rw [shown] at isForm
  have lineEnds : forall c, c ∈ ['\n'] -> IsLineEnd c := by simp [IsLineEnd]
  rw [← placed]
  exact save_writesTrimmed handler convert (id_of_stored placed ends stored) oneLine noField ends
    inLine lineEnds req isForm res

theorem resave_keeps {environments : Nat -> Environment}
    (complete : (environments 0).writeLimit = none) :
    (handler.resave convert path id disk environments).openInput path = some text := by
  have nonempty : text ≠ [] := by
    rintro rfl
    cases ends
  have slash : '/' ∈ path := by
    rw [eq_postPath_of_constructed placed, postPath]
    simp
  rw [resave, (save_writesShown convert placed oneLine noField ends inLine stored _ rfl {}).run]
  exact FileSystem.openInput_writeBack complete nonempty slash stored

end Resaving

/-- A post that is opened and saved without a change has its own text written to it, and
however often this is done it keeps its bytes, as long as what is written is stored. -/
theorem resaves_leavePost {path id text : Text} (placed : handler.constructFilePath id = .ok path)
    (oneLine : OneLine id) (noField : ¬ "text=".toList <:+: id) {last : Char}
    (ends : text.getLast? = some last) (inLine : last ≠ '\n' ∧ last ≠ '\r') {disk : Disk}
    (stored : disk.openInput path = some text) :
    (forall (req : Request) (res : Response),
      req.body = saveBody id (FileSystem.readFile path disk).2 ->
        WritesOnce (handler.save convert req res) (handler.constructFilePath id) text) ∧
    forall rounds : List (Nat -> Environment),
      (forall environments, environments ∈ rounds -> forall index,
        (environments index).writeLimit = none) ->
      (rounds.foldl (handler.resave convert path id) disk).openInput path = some text := by
  have notEnd : ¬ IsLineEnd last := not_or.mpr inLine
  constructor
  · intro req res isForm
    rw [placed]
    exact save_writesShown convert placed oneLine noField ends notEnd stored req isForm res
  · intro rounds complete
    induction rounds generalizing disk with
    | nil => exact stored
    | cons environments rounds inductionHypothesis =>
        have kept := resave_keeps convert placed oneLine noField ends notEnd stored
          (complete environments List.mem_cons_self 0)
        exact inductionHypothesis kept
          (fun later member => complete later (List.mem_cons_of_mem environments member))

/-- The store after a first post has been saved. -/
def savedDisk : Disk :=
  (FileSystem.run (fun _ => Environment.willing)
    (samplePosts.save .ok ⟨.post, "/markdown/save".toList, saveBody "1".toList "a\r\n\nb".toList⟩ {})
    Disk.empty).2

theorem savedPost_isLeft :
    (List.foldl (samplePosts.resave .ok "posts/1".toList "1".toList) savedDisk
      [fun _ => Environment.willing, fun _ => Environment.willing]).openInput "posts/1".toList =
        some "a\r\n\nb".toList := by
  have stored : savedDisk.openInput "posts/1".toList = some "a\r\n\nb".toList := by decide +kernel
  have lastIs : "a\r\n\nb".toList.getLast? = some 'b' := by decide
  have oneLine : OneLine "1".toList := by decide
  have leaves := resaves_leavePost samplePosts .ok rfl oneLine (by decide) lastIs (by decide) stored
  exact leaves.2 _ (by simp [Environment.willing])

end MarkdownRequestHandler
end Handlers
end Webserver
