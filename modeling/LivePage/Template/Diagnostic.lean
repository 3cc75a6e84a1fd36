import LivePage.Data.Value
import LivePage.Log
import LivePage.Forest.Moves
import LivePage.Template.Loop

namespace LivePage.Template

inductive Diagnostic
  | missingRoot
  | rootNotFound (selector : String)
  | malformedDirective (statement : String) (error : LoopError)
  | unresolvedCollection (collection : String)
  | unsupportedCollection (collection : String) (kind : Value.Kind)
  | noPlaceholders (template : String)
  | tree (error : TreeError)
deriving DecidableEq, Repr

inductive Severity
  | warning
  | error
deriving DecidableEq, Repr

namespace Diagnostic

/-- Without a root there is no application; all else is a warning. -/
def severity : Diagnostic → Severity
  | .missingRoot | .rootNotFound _ => .error
  | _ => .warning

def message : Diagnostic → String
  | .missingRoot => "daniel needs to have an el-variable"
  | .rootNotFound selector => "no element matches root selector `" ++ selector ++ "`"
  | .malformedDirective statement error =>
    "Error handling d-for statement `" ++ statement ++ "`: " ++ error.message
  | .unresolvedCollection collection =>
    "Error handling d-for statement: " ++ collection ++ " not found"
  | .unsupportedCollection collection kind =>
    "Error handling d-for statement: " ++ collection ++ " is a " ++ kind.name ++ ", not a list"
  | .noPlaceholders template => "No valid placeholder found for `" ++ template ++ "`"
  | .tree error => "document operation failed: " ++ error.message

def logLine (d : Diagnostic) : LogLine :=
  ⟨match d.severity with
    | .warning => .warn
    | .error => .error, d.message⟩

end Diagnostic

end LivePage.Template
