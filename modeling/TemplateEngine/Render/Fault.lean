-- What can go wrong while a program runs.
namespace TemplateEngine.Render

inductive Fault where
  | undefinedVariable (name : String) (suggestions : List String)
  | expression (expr message : String)
  | invalidLoop (header message : String)
  | notIterable (expr found : String)
  | filter (name message : String)
  | unknownFilter (name : String)
  | invalidProgram (message : String)
deriving DecidableEq, Repr

def Fault.message : Fault → String
  | undefinedVariable name _ => s!"Template variable not found: '{name}'"
  | expression expr message => s!"Invalid expression '{expr}': {message}"
  | invalidLoop header message => s!"Invalid loop header '{header}': {message}"
  | notIterable expr found => s!"Cannot iterate over {found} in '{expr}'"
  | filter name message => s!"Filter '{name}' failed: {message}"
  | unknownFilter name => s!"Unknown filter '{name}'"
  | invalidProgram message => s!"Invalid compiled program: {message}"

structure Failure where
  template : String
  fault : Fault
deriving DecidableEq, Repr

def Failure.message (f : Failure) : String := s!"Failed to render template '{f.template}'"

end TemplateEngine.Render
