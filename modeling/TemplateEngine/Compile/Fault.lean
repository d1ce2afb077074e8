import TemplateEngine.Files.Path

-- Why a template cannot be compiled.
namespace TemplateEngine.Compile

inductive Fault where
  | templateNotFound (name : String) (searched : List Path)
  | circular (path : Path) (chain : List Path)
  | malformed (line : Nat) (message : String)
  | unknownFilter (name : String) (line : Nat) (suggestions : List String)
  | unreadable (path : Path) (cause : String)
  | undecodable
deriving DecidableEq, Repr

def Fault.message : Fault → String
  | templateNotFound name _ => s!"Template '{name}' not found"
  | circular _ chain => "Circular dependency detected: " ++ " -> ".intercalate (chain.map Path.text)
  | malformed line message => s!"Syntax error at line {line}: {message}"
  | unknownFilter name line _ => s!"Unknown filter '{name}' at line {line}"
  | unreadable path _ => s!"Failed to read template {path.text}"
  | undecodable => "Failed to serialize compiled program"

-- A fault and the template it occurred in; inline text has no path.
structure Failure where
  path : Option Path
  fault : Fault
deriving DecidableEq, Repr

def shownPath : Option Path → String
  | some p => p.text
  | none => "<inline>"

def Failure.message (f : Failure) : String := s!"Failed to compile template {shownPath f.path}"

end TemplateEngine.Compile
