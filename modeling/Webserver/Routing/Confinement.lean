import Webserver.Routing.Dispatcher

namespace Webserver
namespace Routing

open Config Handlers Http LexicalPaths Programs Storage

/-!
# Which paths the handlers touch

No handler looks for `..` in what it takes from a request.  What each handler
does guarantee is where that text goes: behind its configured root and, for
the two handlers that join with `joinPath`, behind a separator.  A call can
therefore leave the root only through the text itself.

The texts differ from handler to handler.  The static handler appends what
`split_uri` leaves of the target, the CRUD handler cuts its location off the
target, and the Markdown handler takes what follows `postid=` in the target or
in the body.  Its operations rewrite the request before handing it on, so the
name has to be followed through these rewritings as well.
-/

/-- The configured root of a handler that uses storage. -/
def RequestHandler.root : RequestHandler -> Option Text
  | .static handler => some handler.baseDir
  | .crud handler => some handler.dataPath
  | .markdown handler => some handler.dataPath
  | _ => none

/-- The part of the target behind the location, which the CRUD handler appends. -/
def crudRemainder (location target : Text) : Text :=
  match CrudRequestHandler.prefixSize location with
  | .ok size => target.drop size
  | .error _ => []

/-- What the handler takes from the request never climbs above its own start.
The static handler adds no separator; its text has to bring one, unless the
root ends in one. -/
def RequestHandler.NamesBelow (handler : RequestHandler) (req : Request) : Prop :=
  match handler with
  | .static handler => Descends handler.fileName ∧ Separated handler.baseDir handler.fileName
  | .crud handler => Descends (crudRemainder handler.location req.target)
  | .markdown _ =>
      Descends (MarkdownRequestHandler.extractFileName req.target) ∧
        Descends (MarkdownRequestHandler.extractFileName req.body)
  | _ => True

instance (handler : RequestHandler) (req : Request) : Decidable (handler.NamesBelow req) := by
  unfold RequestHandler.NamesBelow
  cases handler <;> infer_instance

/-! ## Names behind a data path -/

theorem descends_cons_slash {text : Text} : Descends ('/' :: text) ↔ Descends text := by
  rw [Descends, Descends, components_cons_slash]

theorem descends_of_plain {name : Text} (plain : Plain name) : Descends name := by
  rw [Descends, components_of_name plain.1 plain.2.1]
  exact staysBelow_append_name [] rfl plain.2.2.2

theorem descends_append_slash_plain {text name : Text} (descends : Descends text)
    (plain : Plain name) : Descends (text ++ '/' :: name) := by
  rw [Descends, components_append_slash, components_of_name plain.1 plain.2.1]
  exact staysBelow_append_name _ descends plain.2.2.2

/-- Lengthening the last component by a decimal number keeps the text below. -/
theorem descends_append_digits {text : Text} (descends : Descends text) (n : Nat) :
    Descends (text ++ Nat.toDigits 10 n) := by
  rcases Strings.exists_last_field '/' text with ⟨front, last, rfl, plain, ends⟩
  have named := plain_append_digits plain n
  have apart : forall name : Text, components (front ++ name) = components front ++ components name := by
    intro name
    rcases ends with empty | ends
    · rw [empty]
      rfl
    · exact components_append_of_separated (Or.inl ends)
  rw [Descends, apart] at descends
  rw [Descends, List.append_assoc, apart, components_of_name named.1 named.2.1]
  exact staysBelow_append_name _ (staysBelow_of_append descends) named.2.2.2

/-- A name joined to a data path extends it. -/
theorem joinPath_extends {dataPath name path : Text} (joined : joinPath dataPath name = .ok path)
    (descends : Descends name) : Extends dataPath path := by
  unfold joinPath at joined
  cases final : dataPath.getLast? with
  | none =>
      rw [final] at joined
      cases joined
  | some last =>
      rw [final] at joined
      have same := Except.ok.inj joined
      by_cases slash : last = '/'
      · rw [if_pos slash] at same
        exact ⟨name, same.symm, Or.inl (by rw [final, slash]), descends⟩
      · rw [if_neg slash] at same
        exact ⟨'/' :: name, same.symm, Or.inr (Or.inl rfl), descends_cons_slash.mpr descends⟩

/-! ## The handlers one by one -/

/-- Every path string that the computation touches extends the root. -/
def Confined {A : Type} (root : Text) (handling : Handling A) : Prop :=
  handling.CallsOnly (fun call => Extends root call.path)

variable {A : Type} {root : Text}

theorem confined_ofExcept {result : Except Fault A} {rest : A -> Handling Response}
    (each : forall value, result = .ok value -> Confined root (rest value)) :
    Confined root (Program.ofExcept result >>= rest) :=
  Program.CallsOnly.ofExcept_bind each

theorem confined_call {call : FsCall} {rest : call.Reply -> Handling Response}
    (longer : Extends root call.path) (each : forall reply, Confined root (rest reply)) :
    Confined root (Program.perform call >>= rest) :=
  Program.CallsOnly.perform_bind longer each

theorem confined_ite {condition : Prop} [Decidable condition] {first second : Handling Response}
    (yes : Confined root first) (no : Confined root second) :
    Confined root (if condition then first else second) :=
  Program.CallsOnly.ite yes no

theorem confined_pure (res : Response) : Confined root (pure res) := trivial

theorem static_confined (handler : FileRequestHandler) (req : Request) (res : Response)
    (descends : Descends handler.fileName)
    (apart : Separated handler.baseDir handler.fileName) :
    Confined handler.baseDir (handler.serve req res) := by
  unfold FileRequestHandler.serve
  refine confined_call ⟨handler.fileName, rfl, apart, descends⟩ (fun opened => ?_)
  exact confined_ite (confined_pure _) (confined_pure _)

namespace CrudRequestHandler

/-- The path that the CRUD handler builds is its data path joined with the rest
of the target. -/
theorem joinPath_of_mapped {handler : CrudRequestHandler} {target path : Text}
    (mapped : handler.mapRequestPathToFilePath target = .ok path) :
    joinPath handler.dataPath (crudRemainder handler.location target) = .ok path := by
  unfold CrudRequestHandler.mapRequestPathToFilePath at mapped
  unfold crudRemainder
  cases size : CrudRequestHandler.prefixSize handler.location with
  | error fault =>
      rw [size] at mapped
      cases mapped
  | ok size =>
      simp only [size, Strings.substr, bind, Except.bind] at mapped
      split at mapped
      · cases mapped
      · rename_i rest found
        split at found
        · simp only [Option.some.inj found]
          exact mapped
        · cases found

variable (handler : CrudRequestHandler) (req : Request) (res : Response)
  (below : Descends (crudRemainder handler.location req.target))

include below

theorem create_confined (junk : Nat -> CInt) (entity : Text) :
    Confined handler.dataPath (handler.create junk entity req res) := by
  refine confined_ofExcept (fun absPath mapped => ?_)
  have joined := joinPath_of_mapped mapped
  refine confined_call (joinPath_extends joined below) (fun listing => ?_)
  refine confined_ofExcept (fun currId chosen => ?_)
  have longer : Extends handler.dataPath (absPath ++ '/' :: currId.toText) := by
    apply joinPath_extends (joinPath_append joined _)
    rw [toText_of_chosen chosen]
    exact descends_append_slash_plain below (plain_append_digits List.not_mem_nil _)
  refine confined_call longer (fun (written : Bool) => ?_)
  exact confined_ite (confined_pure _) (confined_pure _)

theorem retrieve_confined (entityId : Text) :
    Confined handler.dataPath (handler.retrieve entityId req res) := by
  refine confined_ofExcept (fun filePath mapped => ?_)
  refine confined_call (joinPath_extends (joinPath_of_mapped mapped) below) (fun content => ?_)
  exact confined_ite (confined_pure _) (confined_pure _)

theorem update_confined (entityId : Text) :
    Confined handler.dataPath (handler.update entityId req res) := by
  refine confined_ofExcept (fun absPath mapped => ?_)
  refine confined_call (joinPath_extends (joinPath_of_mapped mapped) below) (fun (written : Bool) => ?_)
  exact confined_ite (confined_pure _) (confined_pure _)

theorem crudDelete_confined (entityId : Text) :
    Confined handler.dataPath (handler.crudDelete entityId req res) := by
  refine confined_ofExcept (fun filePath mapped => ?_)
  exact confined_call (joinPath_extends (joinPath_of_mapped mapped) below)
    (fun deleted => confined_pure _)

theorem list_confined (entity : Text) :
    Confined handler.dataPath (handler.list entity req res) := by
  refine confined_ofExcept (fun filePath mapped => ?_)
  exact confined_call (joinPath_extends (joinPath_of_mapped mapped) below)
    (fun listing => confined_pure _)

theorem serve_confined (junk : Nat -> CInt) :
    Confined handler.dataPath (handler.serve junk req res) := by
  refine confined_ofExcept (fun parts _ => ?_)
  rcases parts with ⟨entityId, entity, id⟩
  apply confined_ite (create_confined handler req res below junk entity)
  apply confined_ite (confined_ite (retrieve_confined handler req res below entityId)
    (list_confined handler req res below entity))
  apply confined_ite (update_confined handler req res below entityId)
  exact confined_ite (crudDelete_confined handler req res below entityId) (confined_pure _)

end CrudRequestHandler

namespace MarkdownRequestHandler

open Handlers.MarkdownRequestHandler (extractFileName extractFileName_digits
  extractFileName_viewed extractFileName_oneLine extractFileName_concat_slash)

variable (handler : MarkdownRequestHandler) (req : Request) (res : Response)

theorem descends_concat_slash {text : Text} (descends : Descends text) :
    Descends (text ++ ['/']) := by
  rw [Descends, components_concat_slash]
  exact descends

/-- The name that `list` reads off the target it has lengthened by a slash. -/
theorem descends_listName {target : Text} (below : Descends (extractFileName target)) :
    Descends (extractFileName (target ++ "/".toList)) := by
  rcases extractFileName_concat_slash target with same | longer
  · exact same ▸ below
  · exact longer ▸ descends_concat_slash below

theorem edit_confined (below : Descends (extractFileName req.body)) :
    Confined handler.dataPath (handler.edit req res) := by
  refine confined_ofExcept (fun filePath joined => ?_)
  refine confined_call (joinPath_extends joined below) (fun content => ?_)
  refine confined_ite ?_ (confined_pure _)
  dsimp only
  with_reducible refine confined_ofExcept ?_
  intro body filled
  exact confined_pure _

theorem create_confined (junk : Nat -> CInt) (below : Descends (extractFileName req.target)) :
    Confined handler.dataPath (handler.create junk req res) := by
  refine confined_ofExcept (fun absPath joined => ?_)
  refine confined_call (joinPath_extends joined below) (fun listing => ?_)
  refine confined_ofExcept (fun postid chosen => ?_)
  rw [toText_of_chosen chosen]
  refine confined_call (joinPath_extends (joinPath_append joined _)
    (descends_append_digits below _)) (fun (written : Bool) => ?_)
  refine confined_ite (confined_pure _) (edit_confined handler _ res ?_)
  rw [extractFileName_digits]
  exact descends_of_plain (plain_append_digits List.not_mem_nil _)

theorem view_confined (convert : Text -> Except Fault Text) (below : Descends (extractFileName req.target)) :
    Confined handler.dataPath (handler.view convert req res) := by
  apply confined_ite (confined_pure _)
  refine confined_ofExcept (fun filePath joined => ?_)
  refine confined_call (joinPath_extends joined below) (fun content => ?_)
  refine confined_ite ?_ (confined_pure _)
  with_reducible refine confined_ofExcept (fun button _ => ?_)
  exact confined_ofExcept (fun page _ => confined_pure _)

theorem list_confined (below : Descends (extractFileName req.target)) :
    Confined handler.dataPath (handler.list req res) := by
  refine confined_ofExcept (fun filePath joined => ?_)
  exact confined_call (joinPath_extends joined (descends_listName below))
    (fun listing => confined_pure _)

theorem save_confined (convert : Text -> Except Fault Text) (below : Descends (extractFileName req.body)) :
    Confined handler.dataPath (handler.save convert req res) := by
  apply confined_ite (confined_pure _)
  refine confined_ofExcept (fun filePath joined => ?_)
  refine confined_ofExcept (fun fileContent _ => ?_)
  refine confined_call (joinPath_extends joined below) (fun (written : Bool) => ?_)
  refine confined_ite (confined_pure _) (view_confined handler _ _ convert ?_)
  rw [extractFileName_viewed (extractFileName_oneLine req.body)]
  exact below

theorem mdDelete_confined (below : Descends (extractFileName req.body)) :
    Confined handler.dataPath (handler.mdDelete req res) := by
  refine confined_ofExcept (fun filePath joined => ?_)
  refine confined_call (joinPath_extends joined below) (fun deleted => ?_)
  have noName : Descends (extractFileName "markdown/list".toList) := by decide
  exact list_confined handler _ _ noName

theorem serve_confined (convert : Text -> Except Fault Text) (junk : Nat -> CInt)
    (belowTarget : Descends (extractFileName req.target))
    (belowBody : Descends (extractFileName req.body)) :
    Confined handler.dataPath (handler.serve convert junk req res) := by
  refine confined_ofExcept (fun action _ => ?_)
  refine confined_ite ?_ (confined_ite ?_ (confined_pure _))
  · apply confined_ite (list_confined handler req res belowTarget)
    apply confined_ite (view_confined handler req res convert belowTarget)
    apply confined_ite (confined_ofExcept (fun page _ => confined_pure _))
    exact confined_ite (create_confined handler req res junk belowTarget) (confined_pure _)
  · apply confined_ite (edit_confined handler req res belowBody)
    apply confined_ite (save_confined handler req res convert belowBody)
    exact confined_ite (mdDelete_confined handler req res belowBody) (confined_pure _)

end MarkdownRequestHandler

/-! ## Every handler that the dispatcher builds -/

/-- A handler keeps to its root when the request's names stay below it. -/
theorem handleRequest_confined (handler : RequestHandler) (convert : Text -> Except Fault Text)
    (junk : Nat -> CInt) (req : Request) (res : Response) (configured : handler.root = some root)
    (below : handler.NamesBelow req) :
    Confined root (handler.handleRequest convert junk req res) := by
  cases handler with
  | static handler =>
      cases configured
      exact static_confined handler req res below.1 below.2
  | crud handler =>
      cases configured
      exact CrudRequestHandler.serve_confined handler req res below junk
  | markdown handler =>
      cases configured
      exact MarkdownRequestHandler.serve_confined handler req res convert junk below.1 below.2
  | echo => cases configured
  | error => cases configured
  | health => cases configured
  | sleep root fileName => cases configured

/-- The root of a handler that uses storage is that of a registered factory. -/
theorem root_of_getHandler {dispatcher : Dispatcher} {req : Request} {handler : RequestHandler}
    (built : (dispatcher.getHandler req).1 = .ok handler) (configured : handler.root = some root) :
    Exists fun path : Text => Exists fun kind : HandlerKind =>
      dispatcher.routes.lookup path = some (some ⟨kind, root⟩) := by
  have ofCreate : forall (factory : RequestHandlerFactory) (location url fileName : Text),
      (factory.create location url fileName).root = some root -> factory.root = root := by
    intro factory location url fileName same
    unfold RequestHandlerFactory.create at same
    cases kind : factory.kind <;> rw [kind] at same <;> first | exact Option.some.inj same | cases same
  unfold Dispatcher.getHandler at built
  cases found : dispatcher.routes.lookup (Dispatcher.splitUri dispatcher.routes req.target).1 with
  | some factory =>
      simp only [found] at built
      cases factory with
      | none => cases built
      | some factory =>
          refine ⟨(Dispatcher.splitUri dispatcher.routes req.target).1, factory.kind, ?_⟩
          rw [found, ← ofCreate factory _ _ _ (Except.ok.inj built ▸ configured)]
  | none =>
      simp only [found, SortedMap.subscript_fst] at built
      cases fallback : dispatcher.routes.lookup "/".toList with
      | none =>
          rw [fallback] at built
          cases built
      | some factory =>
          rw [fallback] at built
          cases factory with
          | none => cases built
          | some factory =>
              refine ⟨"/".toList, factory.kind, ?_⟩
              rw [fallback, ← ofCreate factory _ _ _ (Except.ok.inj built ▸ configured)]

/-- Whatever the dispatcher builds for a request, its root is the root of a
registered factory, and when the names it takes from the request stay below
their start, every path it touches resolves to a path inside that root. -/
theorem built_handler_confined (dispatcher : Dispatcher) (convert : Text -> Except Fault Text)
    (junk : Nat -> CInt) (req : Request) (res : Response) (handler : RequestHandler)
    (root : Text) (built : (dispatcher.getHandler req).1 = .ok handler)
    (configured : handler.root = some root) (nonempty : root ≠ [])
    (below : handler.NamesBelow req) :
    (Exists fun path : Text => Exists fun kind : HandlerKind =>
      dispatcher.routes.lookup path = some (some ⟨kind, root⟩)) ∧
    (handler.handleRequest convert junk req res).CallsOnly
      (fun call => Inside root call.path) :=
  ⟨root_of_getHandler built configured,
    (handleRequest_confined handler convert junk req res configured below).mono
      fun _ longer => longer.inside nonempty⟩

/-- One static route, as in the test configurations. -/
def staticTable : Dispatcher :=
  ⟨SortedMap.empty.assign "/static1".toList (some ⟨.static, "../tests/server_files".toList⟩),
    LocationInfo.empty⟩

theorem staticTable_confined :
    (Exists fun path : Text => Exists fun kind : HandlerKind =>
      staticTable.routes.lookup path = some (some ⟨kind, "../tests/server_files".toList⟩)) ∧
    ((RequestHandler.static ⟨"../tests/server_files".toList, "/a/../b.txt".toList⟩).handleRequest
      .ok (fun _ => CInt.zero) ⟨.get, "/static1/a/../b.txt".toList, []⟩ {}).CallsOnly
      (fun call => Inside "../tests/server_files".toList call.path) :=
  built_handler_confined staticTable .ok (fun _ => CInt.zero)
    ⟨.get, "/static1/a/../b.txt".toList, []⟩ {} _ _ rfl rfl (by decide) (by decide)

/-- Nothing is filtered from the target, so two `..` in it lead out of the root. -/
theorem staticTable_notConfined :
    (staticTable.getHandler ⟨.get, "/static1/../../etc/passwd".toList, []⟩).1 =
      .ok (.static ⟨"../tests/server_files".toList, "/../../etc/passwd".toList⟩) ∧
    ¬ ((RequestHandler.static ⟨"../tests/server_files".toList,
      "/../../etc/passwd".toList⟩).handleRequest .ok (fun _ => CInt.zero)
      ⟨.get, "/static1/../../etc/passwd".toList, []⟩ {}).CallsOnly
      (fun call => Inside "../tests/server_files".toList call.path) := by
  refine ⟨rfl, ?_⟩
  intro confined
  have inside : Inside "../tests/server_files".toList
      "../tests/server_files/../../etc/passwd".toList := confined.1
  revert inside
  decide

end Routing
end Webserver
