import Webserver.Config.LocationWords
import Webserver.Routing.Lookup

namespace Webserver
namespace Routing

open Config

/-!
# Canonical routing tables

A canonical configuration is a list of locations, each written in the layout of
the configuration file in the repository.  The scanner reads it entry by entry:
it comes from the beginning of an entry to its end with the entry's handler and
root in its maps, and with no flag that matters to the next entry.
-/

/-- Printable ASCII other than the space. -/
def isGraphic (c : Char) : Bool := decide (32 < c.toNat) && decide (c.toNat < 127)

/-- The characters of a canonical path. -/
def isPathChar (c : Char) : Bool := isGraphic c && !(";\x7b\x7d#\"'".toList.contains c)

/-- The characters of a canonical root. -/
def isRootChar (c : Char) : Bool := isGraphic c && !(";\x7b\x7d\"'".toList.contains c)

/-- One location of a canonical configuration. -/
structure RouteEntry where
  path : Text
  handler : Text
  root : Option Text
  rooted : path.head? = some '/'
  trimmed : path = "/".toList ∨ path.getLast? ≠ some '/'
  pathPlain : forall c, c ∈ path -> isPathChar c = true
  known : (kindOf handler).isSome
  rootPlain : forall dir, root = some dir -> dir ≠ [] ∧ forall c, c ∈ dir -> isRootChar c = true

namespace RouteEntry

/-- The line of the root, if there is one. -/
def rootText (entry : RouteEntry) : Text :=
  match entry.root with
  | none => []
  | some dir => "  root ".toList ++ dir ++ ";\n".toList

/-- The entry as it is written in the configuration. -/
def text (entry : RouteEntry) : Text :=
  "location ".toList ++ entry.path ++ " ".toList ++ entry.handler ++ " \x7b\n".toList ++
    entry.rootText ++ "\x7d\n".toList

theorem isspace_of_graphic {c : Char} (graphic : isGraphic c = true) : isspace c = false := by
  by_contra space
  simp only [isspace, Bool.not_eq_false, Bool.or_eq_true, beq_iff_eq] at space
  rcases space with ((((rfl | rfl) | rfl) | rfl) | rfl) | rfl <;> revert graphic <;> decide

/-- The known handler names are words of letters. -/
theorem handler_word {handler : Text} (known : (kindOf handler).isSome) :
    handler ≠ [] ∧ forall c, c ∈ handler -> c.isAlphanum = true := by
  have words : handlerNames.all (fun entry => !entry.1.isEmpty && entry.1.all Char.isAlphanum) = true := by
    decide
  rw [kindOf, Option.isSome_map] at known
  rcases Option.isSome_iff_exists.mp known with ⟨entry, found⟩
  have same : entry.1 = handler := by simpa using List.find?_some found
  have word := List.all_eq_true.mp words entry (List.mem_of_find?_eq_some found)
  rw [same, Bool.and_eq_true, List.all_eq_true] at word
  exact ⟨by simpa using word.1, word.2⟩

/-- `trim_slashes` leaves the path of an entry alone. -/
theorem trimSlashes_path (entry : RouteEntry) :
    Dispatcher.trimSlashes entry.path = entry.path := by
  rcases entry.trimmed with isRoot | unslashed
  · rw [isRoot]
    rfl
  · rw [Dispatcher.trimSlashes]
    cases reversed : entry.path.reverse with
    | nil => rw [List.reverse_eq_nil_iff.mp reversed]; rfl
    | cons last before =>
        have different : last ≠ '/' := by
          rintro rfl
          rw [List.reverse_eq_cons_iff.mp reversed] at unslashed
          simp at unslashed
        cases before with
        | nil => rw [Dispatcher.trimReversed, ← reversed, List.reverse_reverse]
        | cons next others =>
            rw [Dispatcher.trimReversed, if_neg different, ← reversed, List.reverse_reverse]

/-- The maps after the entry. -/
def enter (entry : RouteEntry) (info : LocationInfo) : LocationInfo :=
  { info with
    pathToHandler := info.pathToHandler.assign entry.path entry.handler
    pathToRoot :=
      match entry.root with
      | none => info.pathToRoot
      | some dir => info.pathToRoot.assign entry.path dir }

open LocationScan

/-- The line of the root is read inside the block of its location. -/
theorem leads_rootText (entry : RouteEntry) {scan : LocationScan} (live : scan.Live)
    (here : scan.pathName = entry.path) (rest : Text) :
    Exists fun scan' : LocationScan => Leads (entry.rootText ++ rest) scan rest scan' ∧
      scan'.locInfo = { scan.locInfo with
        pathToRoot := match entry.root with
          | none => scan.locInfo.pathToRoot
          | some dir => scan.locInfo.pathToRoot.assign entry.path dir } := by
  cases configured : entry.root with
  | none =>
      rw [rootText, configured]
      exact ⟨scan, Leads.refl rest scan, rfl⟩
  | some dir =>
      rcases entry.rootPlain dir configured with ⟨nonempty, plain⟩
      rcases List.exists_cons_of_ne_nil nonempty with ⟨first, others, rfl⟩
      have inside : forall c, c ∈ first :: others -> inDir c = true := by
        intro c member
        have graphic := (Bool.and_eq_true_iff.mp (plain c member)).1
        have apart : forall d, isRootChar d = false -> c ≠ d := by
          rintro d excluded rfl
          rw [plain c member] at excluded
          cases excluded
        simp [inDir, isspace_of_graphic graphic, apart ';' (by decide), apart '"' (by decide),
          apart '}' (by decide)]
      have noBlanks : forall c, c ∈ ([] : Text) -> isspace c = true :=
        fun _ absent => absurd absent List.not_mem_nil
      have directory := leads_root live noBlanks inside (by decide : inDir ';' = false)
        (List.cons_ne_nil '\n' rest)
      refine ⟨scan.atRoot (first :: others), ?_, by rw [atRoot, here]⟩
      have allBlank : AllBlank "  ".toList := List.all_eq_true.mp (by decide)
      have blanks := leads_blanks scan allBlank ('r' :: ("oot ".toList ++ ([] ++ first :: (others ++
          ';' :: '\n' :: rest))))
      have ended := (leads_semicolon (scan.atRoot (first :: others)) ('\n' :: rest)).trans
        (leads_blank _ (by decide) rest)
      have whole := blanks.trans (directory.trans ended)
      rw [rootText, configured]
      simpa using whole

/-- An entry is read from its beginning to its end. -/
theorem leads_text (entry : RouteEntry) (scan : LocationScan) (rest : Text) :
    Exists fun scan' : LocationScan => Leads (entry.text ++ rest) scan rest scan' ∧
      scan'.locInfo = entry.enter scan.locInfo := by
  rcases List.head?_eq_some_iff.mp entry.rooted with ⟨path, pathIs⟩
  rcases handler_word entry.known with ⟨nonempty, letters⟩
  rcases List.exists_cons_of_ne_nil nonempty with ⟨first, handler, handlerIs⟩
  rw [handlerIs] at letters
  have pathPlain : forall c, c ∈ path -> isspace c = false := by
    intro c member
    apply isspace_of_graphic
    exact (Bool.and_eq_true_iff.mp
      (entry.pathPlain c (pathIs ▸ List.mem_cons_of_mem '/' member))).1
  have named : forall c, c ∈ first :: handler -> c.isAlphanum = true ∧ isspace c = false :=
    fun c member => ⟨letters c member, not_space_of_alphanum (letters c member)⟩
  let inside : LocationScan :=
    { scan.atLocation ('/' :: path) (first :: handler) with insideBrace := true }
  have live : inside.Live := ⟨rfl, List.cons_ne_nil '/' path⟩
  rcases leads_rootText entry live pathIs.symm ('}' :: '\n' :: rest) with
    ⟨scan', body, infoIs⟩
  refine ⟨{ scan' with insideBrace := false }, ?_, ?_⟩
  · have keyword := leads_location scan ('/' :: (path ++ ' ' :: ([] ++ first :: (handler ++
      ' ' :: '{' :: '\n' :: (entry.rootText ++ '}' :: '\n' :: rest)))))
    have blank : forall c, c ∈ [' '] -> isspace c = true := List.all_eq_true.mp (by decide)
    have words := leads_path { scan with validLocation := true } rfl pathPlain blank named (by decide : ' '.isAlphanum = false)
      ('{' :: '\n' :: (entry.rootText ++ '}' :: '\n' :: rest))
    have opened : Leads (' ' :: '{' :: '\n' :: (entry.rootText ++ '}' :: '\n' :: rest))
        (scan.atLocation ('/' :: path) (first :: handler))
        (entry.rootText ++ '}' :: '\n' :: rest) inside :=
      (leads_blank _ (by decide : isBlank ' ' = true) _).trans
        ((leads_openBrace _ _).trans (leads_blank inside (by decide : isBlank '\n' = true) _))
    have closed : Leads ('}' :: '\n' :: rest) scan' rest { scan' with insideBrace := false } :=
      (leads_closeBrace scan' _).trans (leads_blank _ (by decide : isBlank '\n' = true) rest)
    have textIs : entry.text ++ rest = 'l' :: ("ocation ".toList ++ '/' :: (path ++ ' ' :: ([] ++
        first :: (handler ++ ' ' :: '{' :: '\n' :: (entry.rootText ++ '}' :: '\n' :: rest))))) := by
      change "location ".toList ++ entry.path ++ " ".toList ++ entry.handler ++ " \x7b\n".toList ++
        entry.rootText ++ "\x7d\n".toList ++ rest = _
      simp [pathIs, handlerIs]
    rw [textIs]
    exact keyword.trans (words.trans (opened.trans (body.trans closed)))
  · rw [infoIs, enter, pathIs, handlerIs]
    rfl

/-- The entries are read one after another. -/
theorem leads_table (table : List RouteEntry) (scan : LocationScan) :
    Exists fun scan' : LocationScan =>
      Leads (table.flatMap RouteEntry.text) scan [] scan' ∧
      scan'.locInfo = table.foldl (fun info entry => entry.enter info) scan.locInfo := by
  induction table generalizing scan with
  | nil => exact ⟨scan, Leads.refl [] scan, rfl⟩
  | cons entry others inductionHypothesis =>
      rcases entry.leads_text scan (others.flatMap RouteEntry.text) with ⟨middle, first, entered⟩
      rcases inductionHypothesis middle with ⟨scan', later, infoIs⟩
      exact ⟨scan', first.trans later, by rw [infoIs, entered, List.foldl_cons]⟩

theorem extractLocation_table (table : List RouteEntry) :
    Exists fun bound : Nat => forall limit : Nat, bound ≤ limit ->
      extractLocation limit (table.flatMap RouteEntry.text) =
        some (table.foldl (fun info entry => entry.enter info) .empty) := by
  rcases leads_table table .initial with ⟨scan, passed, infoIs⟩
  rcases passed scan.locInfo (gives_nil scan) with ⟨⟨bound, runs⟩, _⟩
  rw [infoIs] at runs
  exact ⟨bound, fun limit enough => runs limit limit [] enough enough⟩

/-! ## The maps of a table -/

theorem lookup_foldl_enter_of_notMem {table : List RouteEntry} {key : Text}
    (absent : key ∉ table.map RouteEntry.path) (info : LocationInfo) :
    (table.foldl (fun info entry => entry.enter info) info).pathToHandler.lookup key =
        info.pathToHandler.lookup key ∧
      (table.foldl (fun info entry => entry.enter info) info).pathToRoot.lookup key =
        info.pathToRoot.lookup key := by
  induction table generalizing info with
  | nil => exact ⟨rfl, rfl⟩
  | cons entry others inductionHypothesis =>
      rw [List.map_cons, List.mem_cons, not_or] at absent
      rcases inductionHypothesis absent.2 (entry.enter info) with ⟨handlers, roots⟩
      rw [List.foldl_cons, handlers, roots]
      constructor
      · exact SortedMap.lookup_assign_of_ne _ (Ne.symm absent.1) _
      · rw [enter]
        cases entry.root with
        | none => rfl
        | some dir => exact SortedMap.lookup_assign_of_ne _ (Ne.symm absent.1) _

/-- With distinct paths, each entry is found under its path. -/
theorem lookup_foldl_enter {table : List RouteEntry} (distinct : (table.map RouteEntry.path).Nodup)
    {entry : RouteEntry} (member : entry ∈ table) (info : LocationInfo) :
    (table.foldl (fun info entry => entry.enter info) info).pathToHandler.lookup entry.path =
        some entry.handler ∧
      (table.foldl (fun info entry => entry.enter info) info).pathToRoot.lookup entry.path =
        entry.root.or (info.pathToRoot.lookup entry.path) := by
  induction table generalizing info with
  | nil => cases member
  | cons first others inductionHypothesis =>
      rw [List.map_cons, List.nodup_cons] at distinct
      rw [List.foldl_cons]
      rcases List.mem_cons.mp member with rfl | later
      · rcases lookup_foldl_enter_of_notMem distinct.1 (entry.enter info) with ⟨handlers, roots⟩
        rw [handlers, roots, enter]
        refine ⟨SortedMap.lookup_assign_self _ _ _, ?_⟩
        cases entry.root with
        | none => rfl
        | some dir => exact SortedMap.lookup_assign_self _ _ _
      · have different : first.path ≠ entry.path := fun same =>
          distinct.1 (same ▸ List.mem_map_of_mem later)
        rcases inductionHypothesis distinct.2 later (first.enter info) with ⟨handlers, roots⟩
        rw [handlers, roots, enter]
        refine ⟨rfl, ?_⟩
        cases first.root with
        | none => rfl
        | some dir => rw [SortedMap.lookup_assign_of_ne _ different]

/-- The maps that `ExtractLocation` returns for a table. -/
def tableInfo (table : List RouteEntry) : LocationInfo :=
  table.foldl (fun info entry => entry.enter info) .empty

theorem mem_table_of_lookup {table : List RouteEntry}
    (distinct : (table.map RouteEntry.path).Nodup) {path handler : Text}
    (configured : (tableInfo table).pathToHandler.lookup path = some handler) :
    Exists fun entry : RouteEntry => entry ∈ table ∧ entry.path = path ∧ entry.handler = handler := by
  by_cases listed : path ∈ table.map RouteEntry.path
  · rcases List.mem_map.mp listed with ⟨entry, member, rfl⟩
    rw [tableInfo, (lookup_foldl_enter distinct member .empty).1] at configured
    exact ⟨entry, member, rfl, Option.some.inj configured⟩
  · rw [tableInfo, (lookup_foldl_enter_of_notMem listed .empty).1] at configured
    cases configured

/-- The path of an entry is registered for its kind: no other path trims to it. -/
theorem registered_of_mem {table : List RouteEntry} (distinct : (table.map RouteEntry.path).Nodup)
    {entry : RouteEntry} (member : entry ∈ table) {kind : HandlerKind}
    (known : kindOf entry.handler = some kind) :
    Dispatcher.Registered (tableInfo table) entry.path kind := by
  refine ⟨⟨entry.handler, (lookup_foldl_enter distinct member .empty).1, known⟩, ?_⟩
  intro other handler configured before same
  rcases mem_table_of_lookup distinct configured with ⟨rival, _, rfl, _⟩
  rw [trimSlashes_path, trimSlashes_path] at same
  exact absurd before (same ▸ lt_irrefl _)

/-- A dispatcher that is initialised from a canonical table has exactly its paths
as keys, each with a factory of the kind that is named and with its root. -/
theorem table_isInstalled (table : List RouteEntry)
    (distinct : (table.map RouteEntry.path).Nodup) :
    Exists fun bound : Nat => Exists fun dispatcher : Dispatcher =>
      (forall limit : Nat, bound ≤ limit ->
        Dispatcher.ofText limit (table.flatMap RouteEntry.text) = some dispatcher) ∧
      (forall key, key ∈ dispatcher.routes.entries.map Prod.fst <->
        key ∈ table.map RouteEntry.path) ∧
      forall entry, entry ∈ table -> Exists fun factory : RequestHandlerFactory =>
        dispatcher.routes.lookup entry.path = some (some factory) ∧
        kindOf entry.handler = some factory.kind ∧
        (factory.kind.usesFiles = true -> factory.root = entry.root.getD []) := by
  rcases extractLocation_table table with ⟨bound, extracted⟩
  refine ⟨bound, Dispatcher.initializeHandlers (tableInfo table), ?_, ?_, ?_⟩
  · intro limit enough
    rw [Dispatcher.ofText, extracted limit enough, Option.map_some, tableInfo]
  · intro key
    rw [Dispatcher.mem_keys_iff, Dispatcher.isSome_lookup_initializeHandlers]
    constructor
    · rintro ⟨path, handler, configured, _, trimmed⟩
      rcases mem_table_of_lookup distinct configured with ⟨entry, member, rfl, _⟩
      rw [trimSlashes_path] at trimmed
      exact trimmed ▸ List.mem_map_of_mem member
    · intro listed
      rcases List.mem_map.mp listed with ⟨entry, member, rfl⟩
      exact ⟨entry.path, entry.handler, (lookup_foldl_enter distinct member .empty).1,
        entry.known, trimSlashes_path entry⟩
  · intro entry member
    rcases Option.isSome_iff_exists.mp entry.known with ⟨kind, known⟩
    have stored := Dispatcher.lookup_initializeHandlers (tableInfo table) entry.path
    have registered := Dispatcher.firstKind_of_registered (registered_of_mem distinct member known)
    rw [trimSlashes_path] at registered
    rw [registered, Option.map_some] at stored
    refine ⟨factoryFor (tableInfo table) entry.path kind, stored, known, ?_⟩
    intro uses
    have root : (tableInfo table).pathToRoot.lookup entry.path = entry.root := by
      rw [tableInfo, (lookup_foldl_enter distinct member .empty).2]
      exact Option.or_none
    have rooted : kind.takesRoot = true := takesRoot_of_usesFiles uses
    rw [factoryFor, if_pos rooted, rootAt, root]

/-- Two locations of the repository's configuration. -/
def sampleTable : List RouteEntry :=
  [{ path := "/".toList, handler := "ErrorHandler".toList, root := none, rooted := rfl,
     trimmed := Or.inl rfl, pathPlain := List.all_eq_true.mp (by decide), known := rfl,
     rootPlain := fun _ impossible => by cases impossible },
   { path := "/static1".toList, handler := "StaticHandler".toList,
     root := some "../tests/server_files".toList, rooted := rfl,
     trimmed := Or.inr (by decide), pathPlain := List.all_eq_true.mp (by decide), known := rfl,
     rootPlain := fun _ same => Option.some.inj same ▸
      ⟨by decide, List.all_eq_true.mp (by decide)⟩ }]

theorem sampleTable_isInstalled :
    Exists fun bound : Nat => Exists fun dispatcher : Dispatcher =>
      (forall limit : Nat, bound ≤ limit ->
        Dispatcher.ofText limit (sampleTable.flatMap RouteEntry.text) = some dispatcher) ∧
      dispatcher.routes.lookup "/static1".toList =
        some (some ⟨.static, "../tests/server_files".toList⟩) := by
  rcases table_isInstalled sampleTable (by decide) with ⟨bound, dispatcher, built, _, installed⟩
  refine ⟨bound, dispatcher, built, ?_⟩
  rcases installed _ (List.mem_cons_of_mem _ List.mem_cons_self) with
    ⟨⟨kind, root⟩, stored, known, configured⟩
  have isStatic : HandlerKind.static = kind := Option.some.inj known
  subst isStatic
  have rootIs : root = "../tests/server_files".toList := configured rfl
  rw [← rootIs]
  exact stored

end RouteEntry
end Routing
end Webserver
