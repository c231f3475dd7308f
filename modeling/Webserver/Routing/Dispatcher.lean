import Webserver.Config.Syntax
import Webserver.Handlers.Markdown
import Webserver.Handlers.Static

namespace Webserver
namespace Routing

open Config Handlers Http Programs Storage

/-!
# `Dispatcher`

The route table maps a trimmed path to a handler factory.  A null pointer is
`none`: `routes["/"]` stores one when there is no route for `/`, and calling
`create` through it is a fault.
-/

/-- The seven handler kinds that `dispatch` knows. -/
inductive HandlerKind where
  | echo
  | static
  | error
  | crud
  | health
  | sleep
  | markdown
deriving DecidableEq

/-- A handler factory with its `ArgsBuilder`. -/
structure RequestHandlerFactory where
  kind : HandlerKind
  root : Text
deriving DecidableEq

/-- A short-lived handler, built for one request. -/
inductive RequestHandler where
  | echo
  | static (handler : FileRequestHandler)
  | error
  | crud (handler : CrudRequestHandler)
  | health
  | sleep (root fileName : Text)
  | markdown (handler : MarkdownRequestHandler)
deriving DecidableEq

/-- `factory->create(location, url, file_name)`. -/
def RequestHandlerFactory.create (factory : RequestHandlerFactory)
    (location _url fileName : Text) : RequestHandler :=
  match factory.kind with
  | .echo => .echo
  | .static => .static ⟨factory.root, fileName⟩
  | .error => .error
  | .crud => .crud ⟨location, factory.root⟩
  | .health => .health
  | .sleep => .sleep factory.root fileName
  | .markdown => .markdown ⟨location, factory.root⟩

/-- `handler->handle_request(req, res)`. -/
def RequestHandler.handleRequest (handler : RequestHandler) (convert : Text -> Except Fault Text)
    (junk : Nat -> CInt) (req : Request) (res : Response) : Handling Response :=
  match handler with
  | .echo => echoServe req res
  | .static handler => handler.serve req res
  | .error => errorServe req res
  | .crud handler => handler.serve junk req res
  | .health => healthServe req res
  | .sleep _ _ => sleepServe req res
  | .markdown handler => handler.serve convert junk req res

/-- `routes`, with `none` for a null pointer. -/
abbrev Routes := SortedMap Text (Option RequestHandlerFactory)

structure Dispatcher where
  routes : Routes
  handlerInfo : LocationInfo

namespace Dispatcher

/-! ## Looking up a request -/

/-- One step of the longest-prefix search. -/
def matchStep (uri : Text) (matchedPath key : Text) : Text :=
  let uriSubstring := uri.take key.length
  if uriSubstring = key ∧ matchedPath.length < key.length then uriSubstring else matchedPath

/-- `split_uri`: the matched path left in the argument, and the returned rest. -/
def splitUri (routes : Routes) (uri : Text) : Text × Text :=
  let matchedPath := (routes.entries.map Prod.fst).foldl (matchStep uri) []
  (matchedPath, uri.drop matchedPath.length)

/-- `get_handler`, with the dispatcher after the call. -/
def getHandler (dispatcher : Dispatcher) (req : Request) :
    Except Fault RequestHandler × Dispatcher :=
  let requestUri := req.target
  let (matchedPath, fileName) := splitUri dispatcher.routes requestUri
  let (factory, routes) :=
    match dispatcher.routes.lookup matchedPath with
    | some factory => (factory, dispatcher.routes)
    | none => dispatcher.routes.subscript "/".toList none
  let dispatcher := { dispatcher with routes := routes }
  match factory with
  | none => (.error .undefinedBehavior, dispatcher)
  | some factory => (.ok (factory.create matchedPath requestUri fileName), dispatcher)

/-! ## Filling the table -/

/-- Remove trailing slashes on a reversed string, but never the last character. -/
def trimReversed : Text -> Text
  | [] => []
  | [c] => [c]
  | last :: next :: rest => if last = '/' then trimReversed (next :: rest) else last :: next :: rest

/-- `trim_slashes`. -/
def trimSlashes (uri : Text) : Text := (trimReversed uri.reverse).reverse

/-- `args.root = handler_info.path_to_root[path]`, then the factory is stored. -/
def installWithRoot (dispatcher : Dispatcher) (path : Text) (kind : HandlerKind) : Dispatcher :=
  let (root, pathToRoot) := dispatcher.handlerInfo.pathToRoot.subscript path []
  { routes := dispatcher.routes.assign path (some ⟨kind, root⟩)
    handlerInfo := { dispatcher.handlerInfo with pathToRoot := pathToRoot } }

/-- The factory is stored with empty arguments. -/
def install (dispatcher : Dispatcher) (path : Text) (kind : HandlerKind) : Dispatcher :=
  { dispatcher with routes := dispatcher.routes.assign path (some ⟨kind, []⟩) }

/-- `dispatch`, with its result. -/
def dispatch (dispatcher : Dispatcher) (path handler : Text) : Bool × Dispatcher :=
  let path := trimSlashes path
  if (dispatcher.routes.lookup path).isSome then (false, dispatcher)
  else if handler = "EchoHandler".toList then (true, dispatcher.install path .echo)
  else if handler = "StaticHandler".toList then (false, dispatcher.installWithRoot path .static)
  else if handler = "ErrorHandler".toList then (true, dispatcher.install path .error)
  else if handler = "CRUDHandler".toList then (true, dispatcher.installWithRoot path .crud)
  else if handler = "HealthHandler".toList then (true, dispatcher.installWithRoot path .health)
  else if handler = "SleepHandler".toList then (true, dispatcher.install path .sleep)
  else if handler = "MarkdownHandler".toList then (true, dispatcher.installWithRoot path .markdown)
  else (false, dispatcher)

/-- `initialize_handlers` on the extracted location info. -/
def initializeHandlers (info : LocationInfo) : Dispatcher :=
  info.pathToHandler.entries.foldl
    (fun dispatcher entry => (dispatcher.dispatch entry.1 entry.2).2) ⟨.empty, info⟩

end Dispatcher
end Routing
end Webserver
