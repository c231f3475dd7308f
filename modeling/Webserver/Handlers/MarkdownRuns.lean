import Webserver.Handlers.MarkdownCreate

namespace Webserver
namespace Handlers

open Http LexicalPaths Programs Storage

/-!
# Posts after any run

Whatever requests a handler serves, what lies in its data directory has a name
that can stand in a path, and the name of a file there has one line.  A path may
lead out of the data directory and back in again, so the argument is about
resolution: what it puts directly behind the data directory is a component of the
request's name.
-/

/-- A text of one line. -/
def OneLine (text : Text) : Prop := '\n' ∉ text ∧ '\r' ∉ text

instance (text : Text) : Decidable (OneLine text) := inferInstanceAs (Decidable (_ ∧ _))

/-- A name that a post can have. -/
def PostName (id : Name) : Prop := Plain id ∧ OneLine id

instance (id : Name) : Decidable (PostName id) := inferInstanceAs (Decidable (_ ∧ _))

theorem OneLine.of_subset {text part : Text} (oneLine : OneLine text) (inside : part ⊆ text) :
    OneLine part :=
  ⟨fun member => oneLine.1 (inside member), fun member => oneLine.2 (inside member)⟩

/-- A request with everything that it does not determine itself. -/
structure MarkdownTurn where
  req : Request
  junk : Nat -> CInt
  environments : Nat -> Environment

namespace MarkdownRequestHandler

/-- A save request names its post by a plain name. -/
def SavesPlain (req : Request) : Prop :=
  action req.target = .ok "save".toList -> Plain (extractFileName req.body)

instance (req : Request) : Decidable (SavesPlain req) := inferInstanceAs (Decidable (_ -> _))

variable (handler : MarkdownRequestHandler)

/-- Serve requests one after another. -/
def serveTurns (convert : Text -> Except Fault Text) (turns : List MarkdownTurn) (disk : Disk) : Disk :=
  turns.foldl (fun disk turn => (FileSystem.run turn.environments
    (handler.serve convert turn.junk turn.req {}) disk).2) disk

/-- What lies in the data directory can be named in a path, and each file there in a
request. -/
structure WellNamed (disk : Disk) : Prop where
  plain : forall id, disk.node (handler.postKey disk id) ≠ none -> Plain id
  oneLine : forall id, disk.fileAt (handler.postKey disk id) ≠ none -> OneLine id

/-! ## The calls of the handler -/

/-- A call that writes writes a plain name of one line behind some directories, and
one that deletes deletes any path of one line. -/
def Touches : FsCall -> Prop
  | .writeFile path _ => Exists fun front : Text => Exists fun last : Name =>
      path = handler.postPath (front ++ last) ∧ (front = [] ∨ front.getLast? = some '/') ∧
        Plain last ∧ OneLine (front ++ last)
  | .deleteFile path => Exists fun name : Text => path = handler.postPath name ∧ OneLine name
  | _ => True

variable {handler}

theorem eq_postPath_of_constructed {name path : Text}
    (joined : handler.constructFilePath name = .ok path) : path = handler.postPath name := by
  by_cases configured : handler.dataPath = []
  · rw [constructFilePath_of_nil handler configured] at joined
    cases joined
  · rw [constructFilePath_eq handler configured] at joined
    exact (Except.ok.inj joined).symm

section Calls

variable (req : Request) (res : Response)

theorem edit_touches : (handler.edit req res).CallsOnly handler.Touches := by
  refine Program.CallsOnly.ofExcept_bind (fun filePath _ => ?_)
  refine Program.CallsOnly.perform_bind trivial (fun content => ?_)
  refine Program.CallsOnly.ite ?_ trivial
  with_reducible refine Program.CallsOnly.ofExcept_bind ?_
  exact fun body _ => trivial

/-- Viewing a post reads and does nothing else. -/
theorem view_reads (convert : Text -> Except Fault Text) : (handler.view convert req res).CallsOnly
    (fun call => Exists fun path : Text => call = .readFile path) := by
  apply Program.CallsOnly.ite (Program.CallsOnly.pure _)
  refine Program.CallsOnly.ofExcept_bind (fun filePath _ => ?_)
  refine Program.CallsOnly.perform_bind ⟨filePath, rfl⟩ (fun content => ?_)
  refine Program.CallsOnly.ite ?_ trivial
  with_reducible refine Program.CallsOnly.ofExcept_bind (fun button _ => ?_)
  exact Program.CallsOnly.ofExcept_bind (fun page _ => trivial)

theorem view_touches (convert : Text -> Except Fault Text) :
    (handler.view convert req res).CallsOnly handler.Touches := by
  refine (view_reads req res convert).mono ?_
  rintro call ⟨path, rfl⟩
  trivial

theorem list_touches : (handler.list req res).CallsOnly handler.Touches := by
  refine Program.CallsOnly.ofExcept_bind (fun filePath _ => ?_)
  exact Program.CallsOnly.perform_bind trivial (fun listing => trivial)

theorem create_touches (junk : Nat -> CInt) :
    (handler.create junk req res).CallsOnly handler.Touches := by
  refine Program.CallsOnly.ofExcept_bind (fun absPath joined => ?_)
  refine Program.CallsOnly.perform_bind trivial (fun listing => ?_)
  refine Program.CallsOnly.ofExcept_bind (fun postid chosen => ?_)
  rcases Strings.exists_last_field '/' (extractFileName req.target) with
    ⟨front, last, whole, noSlash, ends⟩
  have digits : OneLine postid.toText := by
    rw [← extractFileName_chosen chosen]
    exact extractFileName_oneLine _
  have oneLine := extractFileName_oneLine req.target
  rw [whole] at oneLine
  have writes : handler.Touches (.writeFile (absPath ++ postid.toText) []) := by
    refine ⟨front, last ++ postid.toText, ?_, ends, plain_append_chosen chosen noSlash, ?_, ?_⟩
    · rw [eq_postPath_of_constructed joined, postPath, postPath, whole]
      simp
    · rw [← List.append_assoc, List.mem_append, not_or]
      exact ⟨oneLine.1, digits.1⟩
    · rw [← List.append_assoc, List.mem_append, not_or]
      exact ⟨oneLine.2, digits.2⟩
  refine Program.CallsOnly.perform_bind writes (fun (written : Bool) => ?_)
  exact Program.CallsOnly.ite (Program.CallsOnly.pure _) (edit_touches _ res)

theorem save_touches (convert : Text -> Except Fault Text) (plain : Plain (extractFileName req.body)) :
    (handler.save convert req res).CallsOnly handler.Touches := by
  apply Program.CallsOnly.ite (Program.CallsOnly.pure _)
  refine Program.CallsOnly.ofExcept_bind (fun filePath joined => ?_)
  refine Program.CallsOnly.ofExcept_bind (fun fileContent _ => ?_)
  have writes : handler.Touches (.writeFile filePath fileContent) :=
    ⟨[], extractFileName req.body, eq_postPath_of_constructed joined, Or.inl rfl, plain,
      extractFileName_oneLine req.body⟩
  refine Program.CallsOnly.perform_bind writes (fun (written : Bool) => ?_)
  exact Program.CallsOnly.ite (Program.CallsOnly.pure _) (view_touches _ _ convert)

theorem mdDelete_touches : (handler.mdDelete req res).CallsOnly handler.Touches := by
  refine Program.CallsOnly.ofExcept_bind (fun filePath joined => ?_)
  have deletes : handler.Touches (.deleteFile filePath) :=
    ⟨_, eq_postPath_of_constructed joined, extractFileName_oneLine req.body⟩
  exact Program.CallsOnly.perform_bind deletes (fun deleted => list_touches _ _)

theorem serve_touches (convert : Text -> Except Fault Text) (junk : Nat -> CInt) (saves : SavesPlain req) :
    (handler.serve convert junk req res).CallsOnly handler.Touches := by
  refine Program.CallsOnly.ofExcept_bind (fun name named => ?_)
  refine Program.CallsOnly.ite ?_ (Program.CallsOnly.ite ?_ trivial)
  · apply Program.CallsOnly.ite (list_touches req res)
    apply Program.CallsOnly.ite (view_touches req res convert)
    apply Program.CallsOnly.ite (Program.CallsOnly.ofExcept_bind (fun page _ => Program.CallsOnly.pure _))
    exact Program.CallsOnly.ite (create_touches req res junk) trivial
  · apply Program.CallsOnly.ite (edit_touches req res)
    split
    · rename_i isSave
      exact save_touches req res convert (saves (isSave ▸ named))
    · exact Program.CallsOnly.ite (mdDelete_touches req res) trivial

end Calls

/-! ## What the calls keep -/

section Keeping

variable {disk : Disk}

/-- A change of one file whose name is that of a post, with directories that are made on
the way to it, keeps the names. -/
theorem WellNamed.of_change {after : Disk} {key : Key} (named : handler.WellNamed disk)
    (effect : SameFilesExcept key disk after)
    (nodes : forall other, after.node other = disk.node other ∨ key = other ∨
      Exists fun path : Text => disk.MayMake path other)
    (isPost : forall id, key = handler.postKey disk id -> PostName id) : handler.WellNamed after := by
  constructor
  · intro id stored
    rw [handler.postKey_congr effect.cwd] at stored
    rcases nodes (handler.postKey disk id) with same | changed | ⟨path, made⟩
    · exact named.plain id (same ▸ stored)
    · exact (isPost id changed).1
    · rcases made.name with ⟨above, name, keyIs, member, notDot, notUp⟩
      rcases List.append_inj' keyIs rfl with ⟨_, sameName⟩
      rcases mem_components member with ⟨nonempty, noSlash, _⟩
      rw [(List.cons.inj sameName).1]
      exact ⟨nonempty, noSlash, notDot, notUp⟩
  · intro id stored
    rw [handler.postKey_congr effect.cwd] at stored
    by_cases changed : key = handler.postKey disk id
    · exact (isPost id changed).2
    · rw [effect.files _ changed] at stored
      exact named.oneLine id stored

variable (configured : handler.dataPath ≠ [])

include configured

/-- What a path of one line leads to directly in the data directory has a name of a
post. -/
theorem postName_of_key {text : Text} (oneLine : OneLine text) {id : Name}
    (here : disk.key (handler.postPath text) = handler.postKey disk id) : PostName id := by
  rw [key_postPath handler configured, postKey] at here
  have inside : disk.key handler.dataPath ++ [id] <+:
      resolveFrom true (disk.key handler.dataPath) (components text) := by
    rw [here]
  rcases mem_of_prefix_resolveFrom inside with ⟨member, notDot, notUp⟩
  rcases mem_components member with ⟨nonempty, noSlash, part⟩
  exact ⟨⟨nonempty, noSlash, notDot, notUp⟩, oneLine.of_subset part⟩

theorem wellNamed_exec {environment : Environment} {call : FsCall} (touches : handler.Touches call)
    (named : handler.WellNamed disk) :
    handler.WellNamed (FileSystem.exec environment call disk).2 := by
  cases call with
  | openInput path => exact named
  | readFile path => exact named
  | listFiles path => exact named
  | deleteFile path =>
      rcases touches with ⟨text, rfl, oneLine⟩
      refine WellNamed.of_change named (FileSystem.deleteFile_effect environment _ disk)
        (fun other => ?_) (fun id => postName_of_key configured oneLine)
      exact (FileSystem.node_deleteFile_cases environment _ disk other).imp_right
        (fun changed => Or.inl changed.1)
  | writeFile path data =>
      rcases touches with ⟨front, last, rfl, ends, plain, oneLine⟩
      have parts : Exists fun directory : Text =>
          handler.postPath (front ++ last) = directory ++ '/' :: last := by
        rcases ends with rfl | ends
        · exact ⟨handler.dataRoot, rfl⟩
        · rcases List.getLast?_eq_some_iff.mp ends with ⟨before, rfl⟩
          exact ⟨handler.dataRoot ++ '/' :: before, by simp [postPath]⟩
      rcases parts with ⟨directory, pathIs⟩
      obtain ⟨_, keyIs, directoryIs, _⟩ := @FileSystem.splitPath_name disk directory last plain
      have effect := FileSystem.writeFile_effect environment (directory ++ '/' :: last) data disk
      rw [FileSystem.exec, pathIs]
      refine WellNamed.of_change named effect (fun other => ?_) (fun id changed => ?_)
      · rcases FileSystem.node_writeFile_cases environment (directory ++ '/' :: last) data disk other with
          same | changed | ⟨_, made⟩
        · exact Or.inl same
        · exact Or.inr (Or.inl changed)
        · exact Or.inr (Or.inr ⟨_, made⟩)
      · rw [keyIs] at changed
        rcases List.append_inj' changed rfl with ⟨_, sameId⟩
        rw [← (List.cons.inj sameId).1]
        exact ⟨plain, oneLine.of_subset (List.subset_append_right _ _)⟩

/-- Requests keep the names of posts. -/
theorem wellNamed_serveTurns (convert : Text -> Except Fault Text) {turns : List MarkdownTurn}
    (saves : forall turn, turn ∈ turns -> SavesPlain turn.req) (named : handler.WellNamed disk) :
    handler.WellNamed (handler.serveTurns convert turns disk) := by
  induction turns generalizing disk with
  | nil => exact named
  | cons turn rest inductionHypothesis =>
      apply inductionHypothesis (fun later member => saves later (List.mem_cons_of_mem turn member))
      have calls : (handler.serve convert turn.junk turn.req {}).CallsOnly handler.Touches :=
        serve_touches _ _ convert turn.junk (saves turn List.mem_cons_self)
      have keeps : forall environment call disk, handler.Touches call -> handler.WellNamed disk ->
          handler.WellNamed (FileSystem.exec environment call disk).2 :=
        fun _ _ _ touches named => wellNamed_exec configured touches named
      exact calls.run_keeps keeps turn.environments named

end Keeping

end MarkdownRequestHandler
end Handlers
end Webserver
