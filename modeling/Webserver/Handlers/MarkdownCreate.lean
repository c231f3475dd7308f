import Webserver.Handlers.CrudFreshness
import Webserver.Handlers.MarkdownPosts
import Webserver.Storage.NamedFiles

namespace Webserver
namespace Handlers

open Http LexicalPaths Programs Storage

/-!
# Creating a post

`create` looks for a post id in its own target.  What it finds there is taken
for the directory to list, and the number that it chooses is written directly
behind that text: with an id in the target the new file's name is that id with
a number at its end.  The edit page that follows is the page of the number
alone.
-/

namespace MarkdownRequestHandler

variable (handler : MarkdownRequestHandler)

/-- The path that `create` lists, and the beginning of the one that it writes. -/
def createPath (target : Text) : Text := handler.postPath (extractFileName target)

/-- A new empty post is stored, under an id that named nothing, no other file has
changed, and the answer is the edit page of the new post. -/
def CreatesPost (disk : Disk) (outcome : Except Fault Response × Disk) : Prop :=
  Exists fun id : Name =>
    disk.node (handler.postKey disk id) = none ∧
      outcome.2.fileAt (handler.postKey disk id) = some [] ∧
      SameFilesExcept (handler.postKey disk id) disk outcome.2 ∧
      Exists fun answer : Response => outcome.1 = .ok answer ∧ answer.result = .ok ∧
        editPage id [] = .ok answer.body

/-- The next number is new: where there is a directory to list, it shows which numbers
are taken, and where there is none, the number is 1. -/
def NumberIsNew (target : Text) (disk : Disk) : Prop :=
  disk.nodeAt (handler.createPath target) = some .directory ∨
    (disk.node (handler.postKey disk ['1']) = none ∧
      ¬ disk.Passes (handler.createPath target) (handler.postKey disk ['1']))

/-- The path is that of the data directory with a separator at its end, the next
number can be chosen and is new, and the system lets an empty file be made in the data
directory. -/
def CanCreate (junk : Nat -> CInt) (environments : Nat -> Environment) (target : Text)
    (disk : Disk) : Prop :=
  handler.dataPath ≠ [] ∧
    (handler.createPath target).getLast? = some '/' ∧
    disk.key (handler.createPath target) = disk.key handler.dataPath ∧
    BelowMax junk (FileSystem.listFiles (environments 0) (handler.createPath target) disk).2 ∧
    handler.NumberIsNew target disk ∧
    (environments 1).refusesOpen = false ∧
    FileSystem.CanHold (environments 1) (handler.createPath target) disk

section Serving

variable {handler} {req : Request} {junk : Nat -> CInt} {environments : Nat -> Environment}
  {res : Response} {disk : Disk}

theorem serve_create (get : req.method = .get) (created : action req.target = .ok "create".toList)
    (convert : Text -> Except Fault Text) : handler.serve convert junk req res = handler.create junk req res := by
  have method : req.method.methodString = "GET".toList := by rw [get]; rfl
  rw [serve, created, method]
  simp only [Program.ofExcept_ok, Program.done_bind]
  rw [if_pos trivial, if_neg (by decide), if_neg (by decide), if_neg (by decide), if_pos trivial]

/-- A request without a data path ends with a fault. -/
theorem run_create_of_nil (missing : handler.dataPath = []) :
    FileSystem.run environments (handler.create junk req res) disk =
      (.error .undefinedBehavior, disk) := by
  rw [create, mapRequestPathToFilePath, constructFilePath_of_nil handler missing]
  simp only [run_ofExcept_bind]

/-- The steps of `create`: choosing, writing, and the edit page of what was chosen. -/
theorem run_create (configured : handler.dataPath ≠ []) :
    FileSystem.run environments (handler.create junk req res) disk =
      match chooseId junk
        (FileSystem.listFiles (environments 0) (handler.createPath req.target) disk).2 with
      | .error fault => (.error fault, disk)
      | .ok postid =>
          match FileSystem.writeFile (environments 1)
            (handler.createPath req.target ++ postid.toText) [] disk with
          | (.error fault, after) => (.error fault, after)
          | (.ok written, after) =>
              if written = false then
                (.ok { res with result := .internalServerError }, after)
              else
                FileSystem.run (fun index => environments (index + 1 + 1))
                  (handler.edit { req with
                    target := "/markdown/edit".toList
                    body := "postid=".toList ++ postid.toText } res) after := by
  have path : handler.mapRequestPathToFilePath req.target = .ok (handler.createPath req.target) :=
    constructFilePath_eq handler configured _
  rw [create, path]
  simp only [run_ofExcept_bind, run_listFiles_bind]
  cases chooseId junk
    (FileSystem.listFiles (environments 0) (handler.createPath req.target) disk).2 with
  | error fault => rfl
  | ok postid =>
      simp only [run_writeFile_bind]
      rcases FileSystem.writeFile (environments 1)
        (handler.createPath req.target ++ postid.toText) [] disk with ⟨fault | written, after⟩
      · rfl
      · cases written <;> rfl

end Serving

theorem isDigit_of_chosen {junk : Nat -> CInt} {fileList : Text} {postid : CInt}
    (chosen : chooseId junk fileList = .ok postid) :
    forall c, c ∈ postid.toText -> c.isDigit = true := by
  intro c member
  rw [toText_of_chosen chosen] at member
  exact CInt.isDigit_of_mem_toDigits member

/-- The id that is read out of the rewritten body is the chosen number. -/
theorem extractFileName_chosen {junk : Nat -> CInt} {fileList : Text} {postid : CInt}
    (chosen : chooseId junk fileList = .ok postid) :
    extractFileName ("postid=".toList ++ postid.toText) = postid.toText := by
  rw [toText_of_chosen chosen]
  exact extractFileName_digits _

/-- A chosen number behind a part of a name makes a name. -/
theorem plain_append_chosen {junk : Nat -> CInt} {fileList : Text} {postid : CInt}
    (chosen : chooseId junk fileList = .ok postid) {front : Text} (noSlash : '/' ∉ front) :
    Plain (front ++ postid.toText) := by
  rw [toText_of_chosen chosen]
  exact plain_append_digits noSlash _

/-- The path of `create`, taken apart at its last separator. -/
theorem exists_createPath_parts (target : Text) :
    Exists fun front : Text => Exists fun last : Text =>
      handler.createPath target = front ++ '/' :: last ∧ '/' ∉ last ∧
        last ⊆ extractFileName target := by
  rcases Strings.exists_last_field '/' (extractFileName target) with ⟨front, last, whole, noSlash, ends⟩
  have part : last ⊆ extractFileName target := by
    rw [whole]
    exact List.subset_append_right front last
  rw [createPath, postPath, whole]
  rcases ends with empty | ends
  · subst empty
    exact ⟨handler.dataRoot, last, rfl, noSlash, by rwa [← whole]⟩
  · rcases List.getLast?_eq_some_iff.mp ends with ⟨before, rfl⟩
    exact ⟨handler.dataRoot ++ '/' :: before, last, by simp, noSlash, by rwa [← whole]⟩

/-- The edit page of a number is not that of an id with more in front of it. -/
theorem eq_nil_of_editPage {last number content other body : Text} (oneLine : '\n' ∉ last)
    (digits : forall c, c ∈ number -> c.isDigit = true)
    (page : editPage (last ++ number) content = .ok body)
    (same : editPage number other = .ok body) : last = [] := by
  have oneLine' : '\n' ∉ number := fun member => absurd (digits _ member) (by decide)
  have oneLineId : '\n' ∉ last ++ number := by
    rw [List.mem_append, not_or]
    exact ⟨oneLine, oneLine'⟩
  rcases editPage_begins oneLineId page with ⟨shown, rest, pageIs, shownLine, longer, _⟩
  rcases editPage_begins oneLine' same with ⟨shown', rest', pageIs', shownLine', _, noLetter⟩
  rw [noLetter (fun member => absurd (digits _ member) (by decide))] at pageIs' shownLine'
  rw [pageIs] at pageIs'
  have lines := List.append_cancel_left pageIs'
  have first := congrArg (List.takeWhile (fun c => c != '\n')) lines
  have cut : forall {line : Text}, '\n' ∉ line -> forall rest : Text,
      (line ++ '"' :: '>' :: '\n' :: rest).takeWhile (fun c => c != '\n') = line ++ ['"', '>'] := by
    intro line absent rest
    rw [List.takeWhile_append_of_pos]
    · rfl
    · intro c member
      have different : c ≠ '\n' := fun newline => absent (newline ▸ member)
      simpa using different
  rw [cut shownLine, cut shownLine'] at first
  rw [List.append_cancel_right first, List.length_append] at longer
  exact List.length_eq_zero_iff.mp (by omega)

section Creating

variable {handler} {req : Request} {junk : Nat -> CInt} {environments : Nat -> Environment}
  {res : Response} {disk : Disk}

/-- When the file can be opened, the answer is the edit page of the number. -/
theorem run_create_of_opens (configured : handler.dataPath ≠ []) {postid : CInt}
    (chosen : chooseId junk
      (FileSystem.listFiles (environments 0) (handler.createPath req.target) disk).2 = .ok postid)
    {path : Text} (writes : handler.createPath req.target ++ postid.toText = path)
    (named : (FileSystem.splitPath path).2 ≠ [])
    (opens : FileSystem.Opens (environments 1) path disk) :
    Exists fun answer : Response =>
      let after := (FileSystem.writeFile (environments 1) path [] disk).2
      let content := FileSystem.readFile (handler.postPath postid.toText) after
      FileSystem.run environments (handler.create junk req res) disk = (.ok answer, after) ∧
        (content.1 = true -> answer.result = .ok ∧
          editPage postid.toText content.2 = .ok answer.body) ∧
        (content.1 = false -> answer.result = .notFound) := by
  have isOk := (FileSystem.writeFile_of_opens named opens []).1
  rw [run_create configured]
  simp only [chosen, writes]
  generalize FileSystem.writeFile (environments 1) path [] disk = outcome at isOk
  rcases outcome with ⟨flag, after⟩
  obtain rfl : flag = .ok true := isOk
  simp only [Bool.true_eq_false, if_false]
  rcases run_edit handler configured { req with
    target := "/markdown/edit".toList
    body := "postid=".toList ++ postid.toText } res (fun index => environments (index + 1 + 1))
    after with ⟨answer, outcomeIs, edited⟩
  rw [extractFileName_chosen chosen] at edited
  exact ⟨answer, outcomeIs, edited⟩

/-- Otherwise no answer says that all is well. -/
theorem run_create_of_not_opens (configured : handler.dataPath ≠ []) {postid : CInt}
    (chosen : chooseId junk
      (FileSystem.listFiles (environments 0) (handler.createPath req.target) disk).2 = .ok postid)
    {path : Text} (writes : handler.createPath req.target ++ postid.toText = path)
    (named : (FileSystem.splitPath path).2 ≠ [])
    (refused : ¬ FileSystem.Opens (environments 1) path disk) {answer : Response}
    (answered : (FileSystem.run environments (handler.create junk req res) disk).1 = .ok answer) :
    answer.result = .internalServerError := by
  have fails := (FileSystem.writeFile_of_not_opens named refused []).1
  rw [run_create configured] at answered
  simp only [chosen, writes] at answered
  generalize FileSystem.writeFile (environments 1) path [] disk = outcome at answered fails
  rcases outcome with ⟨fault | flag, after⟩
  · cases answered
  · cases flag with
    | true => exact absurd rfl fails
    | false =>
        simp only [if_true] at answered
        rw [← Except.ok.inj answered]

/-- The number chosen for the data directory is new, in the sense that a file can be made
under it. -/
theorem chosen_isNew_iff (inData : disk.key (handler.createPath req.target) = disk.key handler.dataPath)
    {postid : CInt} (chosen : chooseId junk
      (FileSystem.listFiles (environments 0) (handler.createPath req.target) disk).2 = .ok postid) :
    (disk.node (handler.postKey disk postid.toText) = none ∧
      ¬ disk.Passes (handler.createPath req.target) (handler.postKey disk postid.toText)) <->
    handler.NumberIsNew req.target disk := by
  by_cases directory : disk.nodeAt (handler.createPath req.target) = some .directory
  · have free := chosen_free directory chosen
    rw [inData, ← postKey] at free
    refine iff_of_true ⟨free, fun passed => ?_⟩ (Or.inl directory)
    rw [FileSystem.directory_of_passes directory passed] at free
    cases free
  · rw [FileSystem.listFiles_of_not_directory directory] at chosen
    rw [chosen_unlisted chosen, NumberIsNew, or_iff_right directory]

/-- If a post has been created, then the new number is its whole id. -/
theorem canCreate_of_createsPost
    (creates : handler.CreatesPost disk
      (FileSystem.run environments (handler.create junk req res) disk)) :
    handler.CanCreate junk environments req.target disk := by
  rcases creates with ⟨id, free, stored, _, answer, answered, isOk, page⟩
  have configured : handler.dataPath ≠ [] := by
    intro missing
    rw [run_create_of_nil missing] at answered
    cases answered
  cases chosen : chooseId junk
    (FileSystem.listFiles (environments 0) (handler.createPath req.target) disk).2 with
  | error fault =>
      rw [run_create configured] at answered
      simp only [chosen] at answered
      cases answered
  | ok postid =>
      rcases exists_createPath_parts handler req.target with ⟨front, last, pathIs, noSlash, part⟩
      have plain := plain_append_chosen chosen noSlash
      rcases FileSystem.splitPath_name front plain with ⟨named, keyIs, _⟩
      have writes : handler.createPath req.target ++ postid.toText =
          front ++ '/' :: (last ++ postid.toText) := by
        rw [pathIs, List.append_assoc, List.cons_append]
      by_cases opens : FileSystem.Opens (environments 1) (front ++ '/' :: (last ++ postid.toText)) disk
      · rcases run_create_of_opens configured chosen writes named opens with
          ⟨response, outcomeIs, found, lost⟩
        rw [outcomeIs] at stored answered
        obtain rfl : response = answer := Except.ok.inj answered
        -- The written file is the new post.
        have here : disk.key (FileSystem.openedPath (front ++ '/' :: (last ++ postid.toText))) =
            handler.postKey disk id := by
          by_contra elsewhere
          rw [FileSystem.fileAt_writeFile_of_opens named opens, if_neg elsewhere, Disk.fileAt,
            free] at stored
          cases stored
        rw [keyIs, postKey] at here
        rcases List.append_inj' here rfl with ⟨inData, sameId⟩
        obtain rfl : last ++ postid.toText = id := (List.cons.inj sameId).1
        -- Its edit page is that of the number, so the number is all there is.
        have readable : (FileSystem.readFile (handler.postPath postid.toText)
            (FileSystem.writeFile (environments 1) (front ++ '/' :: (last ++ postid.toText)) []
              disk).2).1 = true := by
          by_contra unreadable
          have status := lost (Bool.not_eq_true _ ▸ unreadable)
          rw [isOk] at status
          cases status
        have oneLine : '\n' ∉ last := fun member =>
          (extractFileName_oneLine req.target).1 (part member)
        obtain rfl : last = [] :=
          eq_nil_of_editPage oneLine (isDigit_of_chosen chosen) page (found readable).2
        rw [List.nil_append] at opens free
        have valid := (CrudRequestHandler.validName_chosen chosen).1
        have there := free
        rw [postKey, ← inData] at there
        have possible := (FileSystem.opens_name_iff (environments 1) front valid there).mp opens
        rw [inData, ← pathIs] at possible
        have sameKey : disk.key (handler.createPath req.target) = disk.key handler.dataPath := by
          rw [pathIs, inData]
        refine ⟨configured, ?_, sameKey, (chooseId_isOk_iff _ _).mp ⟨postid, chosen⟩,
          (chosen_isNew_iff sameKey chosen).mp ⟨free, possible.2.2⟩, possible.1, possible.2.1⟩
        rw [pathIs, List.getLast?_concat]
      · have status := run_create_of_not_opens configured chosen writes named opens answered
        rw [isOk] at status
        cases status

/-- A post is created in the data directory under the number alone. -/
theorem createsPost_of_canCreate (able : handler.CanCreate junk environments req.target disk) :
    handler.CreatesPost disk (FileSystem.run environments (handler.create junk req res) disk) := by
  rcases able with ⟨configured, ends, inData, below, isNew, accepted, holds⟩
  rcases (chooseId_isOk_iff junk _).mpr below with ⟨postid, chosen⟩
  rcases (chosen_isNew_iff inData chosen).mpr isNew with ⟨free, notPassed⟩
  rcases List.getLast?_eq_some_iff.mp ends with ⟨front, pathIs⟩
  have valid := (CrudRequestHandler.validName_chosen chosen).1
  have writes : handler.createPath req.target ++ postid.toText = front ++ '/' :: postid.toText := by
    rw [pathIs, List.append_assoc, List.singleton_append]
  rcases FileSystem.splitPath_name front valid with ⟨named, keyIs, _⟩
  rw [← pathIs, inData, ← postKey] at keyIs
  have opens : FileSystem.Opens (environments 1) (front ++ '/' :: postid.toText) disk := by
    have there : disk.node (disk.key (front ++ ['/']) ++ [postid.toText]) = none := by
      rw [← pathIs, inData]
      exact free
    apply (FileSystem.opens_name_iff (environments 1) front valid there).mpr
    rw [← pathIs, inData]
    exact ⟨accepted, holds, notPassed⟩
  have written := FileSystem.writeFile_of_opens named opens []
  have effect := FileSystem.writeFile_effect (environments 1) (front ++ '/' :: postid.toText) [] disk
  have found := FileSystem.nodeAt_writeFile_of_opens named opens []
  rw [keyIs, Environment.stored_nil] at written
  rw [keyIs] at effect
  rcases run_create_of_opens configured chosen writes named opens with
    ⟨answer, outcomeIs, shown, _⟩
  rw [outcomeIs]
  generalize (FileSystem.writeFile (environments 1) (front ++ '/' :: postid.toText) [] disk).2 = after
    at written effect found shown
  -- The way to the new file leads through the data directory.
  have there : after.nodeAt handler.dataPath = some .directory := by
    have reached := (FileSystem.reaches_openedPath_name after front valid).mp
      ((Disk.nodeAt_eq_file_iff _ _ _).mp found).2.1
    rw [← pathIs] at reached
    exact (handler.nodeAt_dataRoot configured after).mp (FileSystem.nodeAt_of_longer reached)
  have stored : after.node (handler.postKey disk postid.toText) = some (.file []) := by
    rw [written.2.2, if_pos rfl]
  have post := (handler.nodeAt_post configured valid after (.file [])).mpr
    ⟨there, by rw [handler.postKey_congr effect.cwd, stored]⟩
  rw [FileSystem.readFile_eq, post] at shown
  exact ⟨postid.toText, free, (Disk.fileAt_eq_some_iff _ _ _).mpr stored, effect, answer, rfl,
    shown rfl⟩

/-- A create request creates a post exactly when its path is that of the data
directory, a number can be chosen, and the system lets the file be made. -/
theorem serve_createsPost_iff (get : req.method = .get)
    (created : action req.target = .ok "create".toList) (convert : Text -> Except Fault Text) :
    handler.CreatesPost disk
        (FileSystem.run environments (handler.serve convert junk req res) disk) <->
      handler.CanCreate junk environments req.target disk := by
  rw [serve_create get created]
  exact ⟨canCreate_of_createsPost, createsPost_of_canCreate⟩

end Creating

def samplePosts : MarkdownRequestHandler := ⟨"/markdown".toList, "posts".toList⟩

/-- The first post of an empty store. -/
theorem firstPost_isCreated :
    samplePosts.CreatesPost Disk.empty (FileSystem.run (fun _ => Environment.willing)
      (samplePosts.serve .ok (fun _ => CInt.zero) ⟨.get, "/markdown/create".toList, []⟩ {})
      Disk.empty) := by
  have isNew : ¬ Disk.empty.Passes (samplePosts.createPath "/markdown/create".toList)
      (samplePosts.postKey Disk.empty ['1']) := by
    rintro ⟨front, before, reached⟩
    have parts : components (samplePosts.createPath "/markdown/create".toList) = ["posts".toList] := by
      decide
    rw [parts] at before
    rcases List.prefix_cons_iff.mp before with rfl | ⟨more, rfl, above⟩
    · exact absurd reached (by decide)
    · obtain rfl := List.prefix_nil.mp above
      exact absurd reached (by decide)
  apply (serve_createsPost_iff rfl (by decide) .ok).mpr
  refine ⟨by decide, by decide, by decide, by decide, Or.inr ⟨by decide, isNew⟩, rfl, rfl, ?_, ?_⟩
  · intro front _
    have nothing : Disk.empty.nodes.lookup front = none := rfl
    by_cases top : front = [] <;> simp [Disk.fileAt, Disk.node, top, nothing]
  · intro limit impossible
    cases impossible

/-- The store with one post. -/
def onePost : Disk :=
  (FileSystem.writeFile Environment.willing "posts/51".toList "a".toList Disk.empty).2

/-- With an id in the target another post is emptied. -/
theorem createTarget_emptiesPost :
    action "/markdown/create?postid=5".toList = .ok "create".toList ∧
      onePost.fileAt ["posts".toList, "51".toList] = some "a".toList ∧
      let outcome := FileSystem.run (fun _ => Environment.willing)
        (samplePosts.serve .ok (fun _ => CInt.zero)
          ⟨.get, "/markdown/create?postid=5".toList, []⟩ {}) onePost
      outcome.2.fileAt ["posts".toList, "51".toList] = some [] ∧
        ¬ samplePosts.CreatesPost onePost outcome := by
  have emptied : (FileSystem.run (fun _ => Environment.willing)
      (samplePosts.serve .ok (fun _ => CInt.zero)
        ⟨.get, "/markdown/create?postid=5".toList, []⟩ {}) onePost).2.fileAt
          ["posts".toList, "51".toList] = some [] := by decide
  refine ⟨by decide, by decide, emptied, ?_⟩
  rintro ⟨id, free, _, kept, _⟩
  have different : samplePosts.postKey onePost id ≠ ["posts".toList, "51".toList] := by
    intro same
    rw [same] at free
    exact absurd free (by decide)
  have unchanged := kept.files _ different
  rw [emptied] at unchanged
  exact absurd unchanged (by decide)

end MarkdownRequestHandler
end Handlers
end Webserver
