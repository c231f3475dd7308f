import Webserver.Handlers.MarkdownActions
import Webserver.Handlers.MarkdownRows
import Webserver.Handlers.MarkdownRuns
import Webserver.Storage.Listings

namespace Webserver
namespace Handlers

open Http LexicalPaths Programs Storage

/-!
# The list page

The listing shows the names in the data directory that do not begin with a dot, files
and directories alike, and the page has a row for each part between their commas.  That
is compared with the posts, as a browser reads the rows.  Where a post is hidden and a
directory is shown, the parts of the directory's name can be read as the post's id; in
every other case the rows are the posts only if every post stands in the page as it is
and nothing but posts is listed.
-/

namespace MarkdownRequestHandler

open HtmlAssets

variable (handler : MarkdownRequestHandler)

/-- Serve a `GET` of a target. -/
def performGet (convert : Text -> Except Fault Text) (junk : Nat -> CInt)
    (environments : Nat -> Environment) (target : Text) (disk : Disk) :
    Except Fault Response × Disk :=
  FileSystem.run environments (handler.serve convert junk ⟨.get, target, []⟩ {}) disk

/-- The target under which a row's button views its post. -/
def viewTarget (id : Name) : Text := "/markdown/view?postid=".toList ++ id

/-- A regular file in the data directory is a post. -/
def IsPost (disk : Disk) (id : Name) : Prop :=
  disk.nodeAt handler.dataPath = some .directory ∧ disk.fileAt (handler.postKey disk id) ≠ none

/-- Viewing an id finds the post: its text is converted, and the answer is a page, or the
request ends as the conversion does. -/
def ViewFinds (convert : Text -> Except Fault Text) (junk : Nat -> CInt)
    (environments : Nat -> Environment) (disk : Disk) (id : Name) : Prop :=
  Exists fun content : Text => disk.fileAt (handler.postKey disk id) = some content ∧
    (forall page, convert (getlines content) = .ok page ->
      Answers (handler.performGet convert junk environments (viewTarget id) disk) .ok) ∧
    forall fault, convert (getlines content) = .error fault ->
      (handler.performGet convert junk environments (viewTarget id) disk).1 = .error fault

/-- The page has one row for each post, whose text and hidden field are read as the
post's id, and viewing any of these ids finds the post. -/
def ShowsPosts (references : Html.CharacterReferences) (convert : Text -> Except Fault Text)
    (junk : Nat -> CInt) (environments : Nat -> Environment) (target : Text) (disk : Disk) : Prop :=
  Exists fun res : Response =>
    (handler.performGet convert junk environments target disk).1 = .ok res ∧ res.result = .ok ∧
      Exists fun rows : List (Text × Text) => Exists fun ids : List Name =>
        ShowsRows res.body rows ∧
          List.Forall₂ (fun row id => references.inText row.1 = id ++ [' '] ∧
            references.inAttribute row.2 = id) rows ids ∧
          ids.Nodup ∧ (forall id, id ∈ ids <-> handler.IsPost disk id) ∧
          forall id, id ∈ ids -> forall environments, handler.ViewFinds convert junk environments disk id

/-- The names that the listing shows. -/
def shownNames (disk : Disk) : List Name :=
  if disk.nodeAt handler.dataPath = some .directory then
    (disk.children (disk.key handler.dataPath)).filter visible
  else []

/-- The shown names, taken apart at their commas. -/
def shownParts (disk : Disk) : List Text :=
  (handler.shownNames disk).flatMap (fun name => name.splitOn ',')

/-- The parts stand in the page without a tag or a quotation mark, and what a browser
reads for them, alike in both places, are the ids of the posts, each once. -/
def PartsArePosts (references : Html.CharacterReferences) (disk : Disk) : Prop :=
  (forall part, part ∈ handler.shownParts disk ->
    Html.tagFree part = true ∧ '"' ∉ part ∧
      references.inText (part ++ [' ']) = references.inAttribute part ++ [' ']) ∧
  ((handler.shownParts disk).map references.inAttribute).Nodup ∧
  forall id, id ∈ (handler.shownParts disk).map references.inAttribute <-> handler.IsPost disk id

/-- The id is shown, it is not taken apart, and it is read from the page as it is. -/
def StandsAsItIs (references : Html.CharacterReferences) (id : Name) : Prop :=
  visible id = true ∧ ',' ∉ id ∧ Html.tagFree id = true ∧ '"' ∉ id ∧
    references.inText (id ++ [' ']) = id ++ [' '] ∧ references.inAttribute id = id

/-- Only posts are shown, and every post stands in the page as it is. -/
def EachStands (references : Html.CharacterReferences) (disk : Disk) : Prop :=
  (forall id, id ∈ handler.shownNames disk -> handler.IsPost disk id) ∧
    forall id, handler.IsPost disk id -> StandsAsItIs references id

/-- A post is hidden and a directory is shown, and all the same the parts are the posts: what
is read for the directory's name is the post's id. -/
structure StandsIn (references : Html.CharacterReferences) (disk : Disk) : Prop where
  hidden : Exists fun id : Name => handler.IsPost disk id ∧ visible id = false
  directory : Exists fun id : Name => id ∈ handler.shownNames disk ∧ ¬ handler.IsPost disk id
  parts : handler.PartsArePosts references disk

/-! ## The list request -/

section Listing

variable {handler} {convert : Text -> Except Fault Text} {junk : Nat -> CInt}
  {environments : Nat -> Environment} {target : Text} {disk : Disk}

theorem serve_list {req : Request} (get : req.method = .get)
    (list : action req.target = .ok "list".toList) (res : Response) :
    handler.serve convert junk req res = handler.list req res := by
  have method : req.method.methodString = "GET".toList := by rw [get]; rfl
  rw [serve, list, method]
  simp only [Program.ofExcept_ok, Program.done_bind]
  rw [if_pos trivial, if_pos trivial]

theorem serve_view {req : Request} (get : req.method = .get)
    (view : action req.target = .ok "view".toList) (res : Response) :
    handler.serve convert junk req res = handler.view convert req res := by
  have method : req.method.methodString = "GET".toList := by rw [get]; rfl
  rw [serve, view, method]
  simp only [Program.ofExcept_ok, Program.done_bind]
  rw [if_pos trivial, if_neg (by decide), if_pos trivial]

/-- A list request that names no post lists the data directory. -/
theorem performGet_list (configured : handler.dataPath ≠ [])
    (list : action target = .ok "list".toList)
    (noPost : Strings.find "postid=".toList target = none) :
    handler.performGet convert junk environments target disk =
      (.ok ({ version := 11
              body := listPage
                (FileSystem.listFiles (environments 0) (handler.postPath []) disk)
              contentType := some "text/html".toList
              result := .ok } : Response).preparePayload, disk) := by
  have path : handler.mapRequestPathToFilePath (target ++ "/".toList) =
      .ok (handler.postPath []) := by
    rw [mapRequestPathToFilePath, constructFilePath_eq handler configured]
    exact congrArg (fun name => Except.ok (handler.postPath name))
      (extractFileName_concat_slash_of_none noPost)
  rw [performGet, serve_list rfl list, MarkdownRequestHandler.list, path]
  simp only [run_ofExcept_bind, run_listFiles_bind]
  rfl

theorem performGet_list_of_nil (missing : handler.dataPath = [])
    (list : action target = .ok "list".toList) :
    (handler.performGet convert junk environments target disk).1 = .error .undefinedBehavior := by
  rw [performGet, serve_list rfl list, MarkdownRequestHandler.list, mapRequestPathToFilePath,
    constructFilePath_of_nil handler missing]
  rfl

theorem action_viewTarget (id : Name) : action (viewTarget id) = .ok "view".toList := by
  have parts : viewTarget id =
      actionTarget "/markdown".toList "view".toList (some ("postid=".toList ++ id)) := rfl
  rw [parts]
  exact action_markdown (by decide) _

/-- Viewing a post finds it. -/
theorem viewFinds_of_isPost (configured : handler.dataPath ≠ []) (named : handler.WellNamed disk)
    {id : Name} (post : handler.IsPost disk id) :
    handler.ViewFinds convert junk environments disk id := by
  rcases Option.ne_none_iff_exists'.mp post.2 with ⟨content, stored⟩
  have nodeIs := (Disk.fileAt_eq_some_iff _ _ _).mp stored
  have plain := named.plain id (by simp [nodeIs])
  have name : extractFileName (viewTarget id) = id :=
    extractFileName_viewed (named.oneLine id post.2)
  have found := (nodeAt_post handler configured plain disk _).mpr ⟨post.1, nodeIs⟩
  rcases editButton_isFilled id with ⟨button, filled⟩
  have viewed : handler.performGet convert junk environments (viewTarget id) disk =
      FileSystem.run environments (handler.view convert ⟨.get, viewTarget id, []⟩ {}) disk := by
    rw [performGet, serve_view rfl (action_viewTarget id)]
  rw [view, name, if_neg plain.1, constructFilePath_eq handler configured] at viewed
  simp only [run_ofExcept_bind, run_readFile_bind, FileSystem.readFile_eq, found, if_true, filled]
    at viewed
  refine ⟨content, stored, ?_, ?_⟩
  · intro page converted
    rw [viewed, converted]
    exact ⟨_, rfl, rfl⟩
  · intro fault failed
    rw [viewed, failed]

theorem key_postPath_nil (configured : handler.dataPath ≠ []) (disk : Disk) :
    disk.key (handler.postPath []) = disk.key handler.dataPath := by
  rw [key_postPath handler configured]
  rfl

/-- The page shows the names in some order, and without a name there is no table. -/
theorem listPage_posts (configured : handler.dataPath ≠ []) (environment : Environment)
    (disk : Disk) :
    Exists fun names : List Name => names.Perm (handler.shownNames disk) ∧
      listPage (FileSystem.listFiles environment (handler.postPath []) disk) =
        if names = [] then "Nothing to see here".toList
        else listTableStart ++
          ((names.flatMap (fun name => name.splitOn ',')).flatMap listRow ++ listTableEnd) := by
  have place := nodeAt_dataRoot handler configured disk
  rw [← postPath] at place
  by_cases directory : disk.nodeAt handler.dataPath = some .directory
  · rcases FileSystem.listFiles_of_directory (place.mpr directory) with ⟨names, shown, listing⟩
    rw [key_postPath_nil configured] at shown
    refine ⟨names, by rwa [shownNames, if_pos directory], ?_⟩
    rw [listing]
    by_cases empty : names = []
    · rw [if_pos empty, empty]
      rfl
    · rw [if_neg empty, listPage_names empty]
  · refine ⟨[], by rw [shownNames, if_neg directory], ?_⟩
    rw [FileSystem.listFiles_of_not_directory (mt place.mp directory)]
    rfl

theorem isChild_of_mem_shownNames {id : Name} (shown : id ∈ handler.shownNames disk) :
    disk.nodeAt handler.dataPath = some .directory ∧ visible id = true ∧
      disk.node (handler.postKey disk id) ≠ none := by
  rw [shownNames] at shown
  split at shown
  · rename_i directory
    rcases List.mem_filter.mp shown with ⟨child, isVisible⟩
    rw [Disk.mem_children_iff, ← postKey, Option.isSome_iff_ne_none] at child
    exact ⟨directory, isVisible, child⟩
  · cases shown

theorem mem_shownNames_of_isPost {id : Name} (post : handler.IsPost disk id)
    (isVisible : visible id = true) : id ∈ handler.shownNames disk := by
  rcases Option.ne_none_iff_exists'.mp post.2 with ⟨content, stored⟩
  rw [shownNames, if_pos post.1, List.mem_filter, Disk.mem_children_iff, ← postKey,
    (Disk.fileAt_eq_some_iff _ _ _).mp stored]
  exact ⟨rfl, isVisible⟩

theorem nodup_shownNames (disk : Disk) : (handler.shownNames disk).Nodup := by
  rw [shownNames]
  split
  · exact (disk.nodup_children _).filter _
  · exact List.nodup_nil

/-! ## Rows and parts -/

theorem slash_notMem_part (named : handler.WellNamed disk) {part : Text}
    (member : part ∈ handler.shownParts disk) : '/' ∉ part := by
  rcases List.mem_flatMap.mp member with ⟨name, shown, inside⟩
  have plain := named.plain name (isChild_of_mem_shownNames shown).2.2
  exact fun slash => plain.2.1 ((Strings.mem_splitOn inside).2 slash)

/-- A page with a table has the row for a new post at least. -/
theorem tableEnd_isRow (rows : Text) : "<tr>".toList <:+: listTableStart ++ (rows ++ listTableEnd) := by
  have start : "<tr>".toList <+: listTableEnd := by
    unfold listTableEnd
    rw [String.toList_append, String.toList_ofList]
    exact List.IsPrefix.trans (by decide) (List.prefix_append _ _)
  rcases start with ⟨others, whole⟩
  exact ⟨listTableStart ++ rows, others, by rw [← whole]; simp⟩

/-- If the page shows the posts, then its rows are the parts, read as the ids. -/
theorem partsArePosts_of_showsPosts {references : Html.CharacterReferences}
    (configured : handler.dataPath ≠ []) (named : handler.WellNamed disk)
    (list : action target = .ok "list".toList)
    (noPost : Strings.find "postid=".toList target = none)
    (shows : handler.ShowsPosts references convert junk environments target disk) :
    handler.PartsArePosts references disk := by
  rcases shows with ⟨res, answered, _, rows, ids, page, read, nodup, members, _⟩
  rw [performGet_list configured list noPost] at answered
  obtain rfl := Except.ok.inj answered
  rcases listPage_posts configured (environments 0) disk with ⟨names, shown, pageIs⟩
  have sameParts : (names.flatMap (fun name => name.splitOn ',')).Perm (handler.shownParts disk) :=
    shown.flatMap_right _
  have bodyIs : ShowsRows (listPage (FileSystem.listFiles (environments 0) (handler.postPath []) disk))
      rows := page
  rw [pageIs] at bodyIs
  have rowsAre : rows = (names.flatMap (fun name => name.splitOn ',')).map
      (fun part => (part ++ [' '], part)) ∧
      forall row, row ∈ rows -> Html.tagFree row.1 = true ∧ '"' ∉ row.2 := by
    by_cases empty : names = []
    · rw [if_pos empty] at bodyIs
      rcases bodyIs with ⟨table, _⟩ | ⟨noRows, _⟩
      · cases congrArg List.head? table
      · rw [noRows, empty]
        exact ⟨rfl, fun row member => by cases member⟩
    · rw [if_neg empty] at bodyIs
      rcases bodyIs with ⟨table, readable⟩ | ⟨_, noTable⟩
      · refine ⟨rows_of_fields readable (fun part member => ?_) (List.append_cancel_left table).symm,
          readable⟩
        exact slash_notMem_part named (sameParts.mem_iff.mp member)
      · exact absurd (tableEnd_isRow _) noTable
  rcases rowsAre with ⟨rfl, readable⟩
  rw [List.forall₂_map_left_iff] at read
  have values := List.forall₂_map_left_iff.mpr (read.imp (fun _ _ both => both.2))
  rw [List.forall₂_eq_eq_eq] at values
  subst values
  rw [List.forall₂_map_right_iff, List.forall₂_same] at read
  have sameIds := sameParts.map references.inAttribute
  refine ⟨fun part member => ?_, sameIds.nodup_iff.mp nodup, fun id => ?_⟩
  · have inPage := sameParts.mem_iff.mpr member
    have stands := readable _ (List.mem_map_of_mem inPage)
    rw [Html.tagFree_concat (by decide)] at stands
    exact ⟨stands.1, stands.2, (read part inPage).1⟩
  · rw [← sameIds.mem_iff]
    exact members id

/-- If the parts are read as the posts, then the page shows them. -/
theorem showsPosts_of_partsArePosts {references : Html.CharacterReferences}
    (configured : handler.dataPath ≠ []) (named : handler.WellNamed disk)
    (list : action target = .ok "list".toList)
    (noPost : Strings.find "postid=".toList target = none)
    (posts : handler.PartsArePosts references disk) :
    handler.ShowsPosts references convert junk environments target disk := by
  rcases posts with ⟨stand, nodup, members⟩
  rcases listPage_posts configured (environments 0) disk with ⟨names, shown, pageIs⟩
  have sameParts : (names.flatMap (fun name => name.splitOn ',')).Perm (handler.shownParts disk) :=
    shown.flatMap_right _
  have sameIds := sameParts.map references.inAttribute
  have rowIs : listRow = fun part => pageRow (part ++ [' '], part) := funext listRow_eq
  refine ⟨_, by rw [performGet_list configured list noPost], rfl,
    (names.flatMap (fun name => name.splitOn ',')).map (fun part => (part ++ [' '], part)),
    (names.flatMap (fun name => name.splitOn ',')).map references.inAttribute, ?_, ?_,
    sameIds.nodup_iff.mpr nodup, fun id => ?_, fun id member environments => ?_⟩
  · have bodyIs : ShowsRows
        (listPage (FileSystem.listFiles (environments 0) (handler.postPath []) disk))
        ((names.flatMap (fun name => name.splitOn ',')).map (fun part => (part ++ [' '], part))) := by
      rw [pageIs]
      by_cases empty : names = []
      · rw [if_pos empty, empty]
        exact Or.inr ⟨rfl, by decide⟩
      · rw [if_neg empty]
        refine Or.inl ⟨by rw [List.flatMap_map, rowIs], fun row member => ?_⟩
        rcases List.mem_map.mp member with ⟨part, inPage, rfl⟩
        have here := stand part (sameParts.mem_iff.mp inPage)
        exact ⟨by rw [Html.tagFree_concat (by decide)]; exact here.1, here.2.1⟩
    exact bodyIs
  · rw [List.forall₂_map_left_iff, List.forall₂_map_right_iff, List.forall₂_same]
    exact fun part inPage => ⟨(stand part (sameParts.mem_iff.mp inPage)).2.2, rfl⟩
  · rw [sameIds.mem_iff]
    exact members id
  · exact viewFinds_of_isPost configured named ((members id).mp (sameIds.mem_iff.mp member))

/-! ## Parts and posts -/

/-- When nothing but posts is shown, the parts are no heavier than the posts, so none of
them is read as something else and none of the posts is hidden. -/
theorem eachStands_of_onlyPosts {references : Html.CharacterReferences}
    (posts : handler.PartsArePosts references disk)
    (only : forall id, id ∈ handler.shownNames disk -> handler.IsPost disk id) :
    handler.EachStands references disk := by
  rcases posts with ⟨stand, nodup, members⟩
  have weights := Html.total_load_fields (show ',' ≠ '&' by decide) (handler.shownNames disk)
  rw [← shownParts] at weights
  have sameShown : (((handler.shownParts disk).map references.inAttribute).filter
      (fun id => decide (id ∈ handler.shownNames disk))).Perm (handler.shownNames disk) := by
    apply (List.perm_ext_iff_of_nodup (nodup.filter _) (nodup_shownNames disk)).mpr
    intro id
    rw [List.mem_filter, decide_eq_true_eq, members id]
    exact ⟨fun both => both.2, fun shown => ⟨only id shown, shown⟩⟩
  have read : List.Forall₂ (fun part id => references.inAttribute part = id)
      (handler.shownParts disk) ((handler.shownParts disk).map references.inAttribute) := by
    rw [List.forall₂_map_right_iff, List.forall₂_same]
    exact fun _ _ => rfl
  have fewer : total Html.load (handler.shownNames disk) ≤
      total Html.load ((handler.shownParts disk).map references.inAttribute) := by
    rw [← total_perm sameShown]
    exact total_sublist List.filter_sublist
  have asTheyAre := references.eq_of_weight read (weights ▸ fewer)
  have enough : total Html.load ((handler.shownParts disk).map references.inAttribute) ≤
      total Html.load (((handler.shownParts disk).map references.inAttribute).filter
        (fun id => decide (id ∈ handler.shownNames disk))) := by
    rw [total_perm sameShown, ← asTheyAre, weights]
  have allShown := forall_of_total_filter (fun _ => Nat.succ_pos _) enough
  refine ⟨only, fun id post => ?_⟩
  have isPart := (members id).mpr post
  have isShown := of_decide_eq_true (allShown id isPart)
  rw [← asTheyAre] at isPart
  have fixed : references.inAttribute id = id := by
    rw [← asTheyAre] at read
    exact List.forall₂_same.mp read id isPart
  rcases List.mem_flatMap.mp isPart with ⟨name, _, inside⟩
  rcases stand id isPart with ⟨noTag, noQuote, inText⟩
  exact ⟨(isChild_of_mem_shownNames isShown).2.1, (Strings.mem_splitOn inside).1, noTag, noQuote,
    by rw [inText, fixed], fixed⟩

/-- When no post is hidden, there are no more names than posts. -/
theorem onlyPosts_of_allShown {references : Html.CharacterReferences}
    (posts : handler.PartsArePosts references disk)
    (all : forall id, handler.IsPost disk id -> visible id = true) {id : Name}
    (shown : id ∈ handler.shownNames disk) : handler.IsPost disk id := by
  rcases posts with ⟨_, nodup, members⟩
  have inside : (handler.shownParts disk).map references.inAttribute ⊆ handler.shownNames disk := by
    intro id member
    have post := (members id).mp member
    exact mem_shownNames_of_isPost post (all id post)
  have count : (handler.shownNames disk).length ≤
      ((handler.shownParts disk).map references.inAttribute).length := by
    rw [List.length_map]
    exact Strings.length_le_flatMap_splitOn ',' _
  have same := (nodup.subperm inside).perm_of_length_le count
  exact (members id).mp (same.mem_iff.mpr shown)

theorem partsArePosts_of_eachStands {references : Html.CharacterReferences}
    (each : handler.EachStands references disk) : handler.PartsArePosts references disk := by
  have stands : forall id, id ∈ handler.shownNames disk -> StandsAsItIs references id :=
    fun id shown => each.2 id (each.1 id shown)
  have parts : handler.shownParts disk = handler.shownNames disk :=
    Strings.flatMap_splitOn fun name shown => (stands name shown).2.1
  have read : (handler.shownNames disk).map references.inAttribute = handler.shownNames disk :=
    (List.map_congr_left fun id shown => (stands id shown).2.2.2.2.2).trans (List.map_id _)
  refine ⟨fun part member => ?_, ?_, fun id => ?_⟩
  · rw [parts] at member
    rcases stands part member with ⟨_, _, noTag, noQuote, inText, inAttribute⟩
    exact ⟨noTag, noQuote, by rw [inText, inAttribute]⟩
  · rw [parts, read]
    exact nodup_shownNames disk
  · rw [parts, read]
    exact ⟨each.1 id, fun post => mem_shownNames_of_isPost post (each.2 id post).1⟩

/-- The parts are the posts exactly where each stands for itself, or a directory for a post. -/
theorem partsArePosts_iff {references : Html.CharacterReferences} :
    handler.PartsArePosts references disk <->
      handler.EachStands references disk ∨ handler.StandsIn references disk := by
  constructor
  · intro posts
    by_cases only : forall id, id ∈ handler.shownNames disk -> handler.IsPost disk id
    · exact Or.inl (eachStands_of_onlyPosts posts only)
    by_cases all : forall id, handler.IsPost disk id -> visible id = true
    · exact absurd (fun id => onlyPosts_of_allShown posts all) only
    · simp only [Classical.not_forall, Bool.not_eq_true] at all only
      rcases all with ⟨id, post, hidden⟩
      rcases only with ⟨other, shown, noPost⟩
      exact Or.inr ⟨⟨id, post, hidden⟩, ⟨other, shown, noPost⟩, posts⟩
  · rintro (each | standsIn)
    · exact partsArePosts_of_eachStands each
    · exact standsIn.parts

end Listing

/-- After any run, the list page shows exactly the posts if and only if only posts are shown
and every post stands in the page as it is, or a directory stands in for a hidden post. -/
theorem list_showsPosts_iff (handler : MarkdownRequestHandler)
    (references : Html.CharacterReferences) (convert : Text -> Except Fault Text)
    (turns : List MarkdownTurn) (saves : forall turn, turn ∈ turns -> SavesPlain turn.req)
    (disk : Disk) (named : handler.WellNamed disk) (junk : Nat -> CInt)
    (environments : Nat -> Environment) (target : Text) (list : action target = .ok "list".toList)
    (noPost : Strings.find "postid=".toList target = none) :
    handler.ShowsPosts references convert junk environments target
        (handler.serveTurns convert turns disk) <->
      handler.dataPath ≠ [] ∧
        (handler.EachStands references (handler.serveTurns convert turns disk) ∨
          handler.StandsIn references (handler.serveTurns convert turns disk)) := by
  rw [← partsArePosts_iff]
  by_cases configured : handler.dataPath = []
  · constructor
    · rintro ⟨res, answered, _⟩
      rw [performGet_list_of_nil configured list] at answered
      cases answered
    · exact fun impossible => absurd configured impossible.1
  · have reached := wellNamed_serveTurns configured convert saves named
    exact ⟨fun shows => ⟨configured, partsArePosts_of_showsPosts configured reached list noPost shows⟩,
      fun both => showsPosts_of_partsArePosts configured reached list noPost both.2⟩

/-- A browser that finds no character reference. -/
def noReferences : Html.CharacterReferences where
  inText := id
  inAttribute := id
  shrinks := fun _ changed => absurd rfl changed

/-- A request that saves a post of one letter. -/
def saveTurn (id : Name) : MarkdownTurn :=
  ⟨⟨.post, "/markdown/save".toList, "postid=".toList ++ (id ++ "\ntext=x".toList)⟩,
    fun _ => CInt.zero, fun _ => Environment.willing⟩

theorem wellNamed_empty : samplePosts.WellNamed Disk.empty := by
  have nothing : forall id, Disk.empty.node (samplePosts.postKey Disk.empty id) = none := by
    intro id
    rw [Disk.node, if_neg (by simp [postKey])]
    rfl
  refine ⟨fun id stored => absurd (nothing id) stored, fun id stored => absurd ?_ stored⟩
  rw [Disk.fileAt, nothing]

/-- What a run has left in the data directory of the samples. -/
theorem mem_shownNames_of_sample {disk : Disk} {id : Name} {names : List Name}
    (children : disk.children (disk.key samplePosts.dataPath) = names)
    (post : samplePosts.IsPost disk id) : id ∈ names := by
  rw [← children, Disk.mem_children_iff, Option.isSome_iff_ne_none]
  intro absent
  apply post.2
  rw [Disk.fileAt, postKey, absent]

/-- A post whose id has a `<` in front of a digit. -/
theorem savedPost_isListed :
    samplePosts.ShowsPosts noReferences .ok (fun _ => CInt.zero) (fun _ => Environment.willing)
        "/markdown/list".toList (samplePosts.serveTurns .ok [saveTurn "1<2".toList] Disk.empty) := by
  have saves : forall turn, turn ∈ [saveTurn "1<2".toList] -> SavesPlain turn.req := by
    intro turn member
    rw [List.mem_singleton.mp member]
    decide +kernel
  apply (list_showsPosts_iff samplePosts noReferences .ok [saveTurn "1<2".toList] saves
    Disk.empty wellNamed_empty (fun _ => CInt.zero) (fun _ => Environment.willing)
    "/markdown/list".toList (by decide) (by decide)).mpr
  have reached : forall after, samplePosts.serveTurns .ok [saveTurn "1<2".toList] Disk.empty = after ->
      after.nodeAt samplePosts.dataPath = some .directory ∧
        after.fileAt (samplePosts.postKey after "1<2".toList) ≠ none ∧
        after.children (after.key samplePosts.dataPath) = ["1<2".toList] := by
    rintro after rfl
    decide +kernel
  generalize samplePosts.serveTurns .ok [saveTurn "1<2".toList] Disk.empty = after at reached
  rcases reached after rfl with ⟨directory, stored, children⟩
  refine ⟨by decide, Or.inl ⟨?_, ?_⟩⟩
  · intro id shown
    rw [shownNames, if_pos directory, children] at shown
    rw [List.mem_singleton.mp (List.mem_of_mem_filter shown)]
    exact ⟨directory, stored⟩
  · intro id post
    rw [List.mem_singleton.mp (mem_shownNames_of_sample children post)]
    exact ⟨by decide, by decide, by decide, by decide, rfl, rfl⟩

/-- The list page takes a post with a comma in its id apart. -/
theorem comma_isTakenApart :
    ¬ samplePosts.ShowsPosts noReferences .ok (fun _ => CInt.zero) (fun _ => Environment.willing)
      "/markdown/list".toList (samplePosts.serveTurns .ok [saveTurn "a,b".toList] Disk.empty) := by
  intro shows
  have saves : forall turn, turn ∈ [saveTurn "a,b".toList] -> SavesPlain turn.req := by
    intro turn member
    rw [List.mem_singleton.mp member]
    decide +kernel
  have reached := wellNamed_serveTurns (by decide) .ok saves wellNamed_empty
  have posts := partsArePosts_of_showsPosts (by decide) reached (by decide) (by decide) shows
  have part : forall after, samplePosts.serveTurns .ok [saveTurn "a,b".toList] Disk.empty = after ->
      "a".toList ∈ (samplePosts.shownParts after).map noReferences.inAttribute ∧
        after.fileAt (samplePosts.postKey after "a".toList) = none := by
    rintro after rfl
    decide +kernel
  rcases part _ rfl with ⟨inPage, missing⟩
  exact ((posts.2.2 _).mp inPage).2 missing

end MarkdownRequestHandler
end Handlers
end Webserver
