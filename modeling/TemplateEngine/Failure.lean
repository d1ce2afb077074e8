import TemplateEngine.Compile.Fault
import TemplateEngine.Render.Fault

-- Why an engine cannot do what it is asked to.
namespace TemplateEngine

inductive Failure where
  | templateNotFound (name : String) (searched : List Path)
  | invalidBindings (found : String)
  | compile (failure : Compile.Failure)
  | render (failure : Render.Failure)
  | cache (operation : String) (path : Path) (cause : String)
  | settings (message : String)
deriving DecidableEq, Repr

namespace Failure

def message : Failure → String
  | templateNotFound name _ => s!"Template '{name}' not found"
  | invalidBindings found => s!"Template variables must be a JSON object, found {found}"
  | compile failure => failure.message
  | render failure => failure.message
  | cache operation path _ => s!"Cache {operation} failed for {path.text}"
  | settings message => s!"Invalid configuration: {message}"

-- Whether a template is missing, be it the one asked for or one that it refers to.
def isTemplateNotFound : Failure → Bool
  | templateNotFound _ _ | compile ⟨_, .templateNotFound _ _⟩ => true
  | _ => false

end Failure

-- Where a failure began. Malformed settings and files that may not be used have advice of their own.
inductive Cause where
  | engine (failure : Failure)
  | malformedSettings (message : String)
  | denied (message : String)
  | other (message : String)
deriving DecidableEq, Repr

def Cause.message : Cause → String
  | engine failure => failure.message
  | malformedSettings message | denied message | other message => message

structure Trouble where
  tasks : List String
  cause : Cause
deriving DecidableEq, Repr

namespace Trouble

def ofFailure (f : Failure) : Trouble := ⟨[], .engine f⟩

def ofMessage (message : String) : Trouble := ⟨[], .other message⟩

def messages (t : Trouble) : List String := t.tasks ++ [t.cause.message]

def message (t : Trouble) : String := t.tasks.headD t.cause.message

def fullMessage (t : Trouble) : String := ": ".intercalate t.messages

end Trouble

end TemplateEngine
