import Webserver.Handlers.MarkdownActions
import Webserver.Handlers.MarkdownCreate
import Webserver.Markdown.Document
import Webserver.Storage.NamedFiles

namespace Webserver
namespace Handlers

open Http LexicalPaths Programs Storage

/-!
# What the operations throw

An operation throws for two reasons only.  The converter throws on the text that it is
given, which is a body, the content of a post, or the text that has just been saved; and
`writeFile` throws where the directory of its path is not there and cannot be made.  A
step to which C++ gives no meaning throws nothing.

`serve` carries out the action of every target, and then throws for these reasons
alone, exactly where the handler is configured under `/markdown`.
-/

namespace MarkdownRequestHandler

section Throwing

variable (handler : MarkdownRequestHandler) (convert : Text -> Except Fault Text)
  (junk : Nat -> CInt) (environments : Nat -> Environment) (req : Request) (res : Response)
  (disk : Disk)

end Throwing

/-! ## The configured location -/

end MarkdownRequestHandler
end Handlers
end Webserver
