import Webserver.Http.Messages
import Webserver.Library.SortedMaps
import Mathlib.Data.List.Lex
import Mathlib.Data.Char

namespace Webserver
namespace Config

/-!
# The data types of the configuration parser

`NginxConfig` is a sequence of statements.  Each constructor except `empty` is
the first statement of the sequence together with the statements after it:
`simple` has no child block, `block` has one.  `NginxConfigStatement` is a
single statement, and `statements` and `ofStatements` convert between the two.
-/

/-- The parsed representation of a configuration. -/
inductive NginxConfig where
  | empty
  | simple (tokens : List Text) (next : NginxConfig)
  | block (tokens : List Text) (child : NginxConfig) (next : NginxConfig)
deriving DecidableEq

/-- The parsed representation of a single statement. -/
structure NginxConfigStatement where
  tokens : List Text
  childBlock : Option NginxConfig
deriving DecidableEq

namespace NginxConfig

/-- The statements in order, as `statements_` holds them. -/
def statements : NginxConfig -> List NginxConfigStatement
  | empty => []
  | simple tokens next => ⟨tokens, none⟩ :: next.statements
  | block tokens child next => ⟨tokens, some child⟩ :: next.statements

def ofStatements : List NginxConfigStatement -> NginxConfig
  | [] => empty
  | ⟨tokens, none⟩ :: rest => simple tokens (ofStatements rest)
  | ⟨tokens, some child⟩ :: rest => block tokens child (ofStatements rest)

@[simp] theorem ofStatements_statements (config : NginxConfig) :
    ofStatements config.statements = config := by
  induction config with
  | empty => rfl
  | simple tokens next inductionHypothesis => rw [statements, ofStatements, inductionHypothesis]
  | block tokens child next _ inductionHypothesis =>
      rw [statements, ofStatements, inductionHypothesis]

@[simp] theorem statements_ofStatements (list : List NginxConfigStatement) :
    (ofStatements list).statements = list := by
  induction list with
  | nil => rfl
  | cons first rest inductionHypothesis =>
      rcases first with ⟨tokens, child⟩
      cases child <;> rw [ofStatements, statements, inductionHypothesis]

end NginxConfig

/-- `location_info`: what is read from `location path handler { root .. index .. }`. -/
structure LocationInfo where
  pathToHandler : SortedMap Text Text
  pathToRoot : SortedMap Text Text
  pathToIndex : SortedMap Text Text
  deriving DecidableEq

def LocationInfo.empty : LocationInfo := ⟨.empty, .empty, .empty⟩

end Config
end Webserver
