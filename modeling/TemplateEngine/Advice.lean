import TemplateEngine.Failure

-- Failures in words for the people who have to act on them.
namespace TemplateEngine

structure Advice where
  message : String
  details : Option String
  suggestion : Option String
deriving DecidableEq, Repr

def Advice.text (a : Advice) : String :=
  a.message
    ++ (a.details.map ("\nDetails: " ++ ·)).getD ""
    ++ (a.suggestion.map ("\nSuggestion: " ++ ·)).getD ""

def lines (all : List String) : String := String.join (all.map (· ++ "\n"))

-- Names that may have been meant, one a line.
def meant (suggestions : List String) : String :=
  if suggestions.isEmpty then ""
  else "\nDid you mean one of these?\n" ++ lines (suggestions.map ("  - " ++ ·))

namespace Compile

-- What is known about a fault beyond its message.
def Fault.explanation : Fault → String
  | templateNotFound _ searched =>
    (if searched.isEmpty then "" else "\nSearched:\n" ++ lines (searched.map ("  " ++ ·.text)))
      ++ "\nSUGGESTION: Check the name in the extends/include directive.\n"
  | circular _ chain =>
    "\nCircular chain:\n" ++ "  ↓\n".intercalate (chain.map fun p => s!"  {p.text}\n")
      ++ "\nSUGGESTION: Remove the extends/include that creates the cycle.\n"
  | malformed _ _ => "\n" ++ lines
      ["SUGGESTION: Check template syntax for unclosed tags.",
       "Common issues:",
       "  - Unclosed \x7b\x7b \x7d\x7d or \x7b% %\x7d delimiters",
       "  - Missing \x7b% endif %\x7d, \x7b% endforeach %\x7d or \x7b% endblock %\x7d",
       "  - Unquoted names in extends/include"]
  | unknownFilter _ _ suggestions =>
    meant suggestions ++ "\nSUGGESTION: Register custom filters with FilterRegistry::add.\n"
  | unreadable _ cause => s!"Cause: {cause}\n"
  | undecodable => ""

def Fault.suggestion : Fault → String
  | templateNotFound _ _ => "Check the name in the extends/include directive and the template directory"
  | circular _ _ => "Remove the extends/include that leads back to a template already in the chain"
  | malformed _ _ => "Check that every directive is closed and properly nested"
  | unknownFilter _ _ _ => "Use a built-in filter or register the function with FilterRegistry::add"
  | unreadable _ _ => "Check that the template file is readable"
  | undecodable => "This is a bug; please report it with the template that triggered it"

def Failure.report (f : Failure) : String :=
  "ERROR: Template Compilation Failed\n\n"
    ++ s!"Template: {shownPath f.path}\nError: {f.fault.message}\n" ++ f.fault.explanation

def Failure.advice (f : Failure) : Advice :=
  ⟨s!"{f.message}: {f.fault.message}", f.report, f.fault.suggestion⟩

end Compile

namespace Render

def Fault.explanation : Fault → String
  | undefinedVariable _ suggestions => meant suggestions
  | notIterable _ _ => "\nSUGGESTION: Loops accept arrays, objects or null.\n"
  | _ => ""

def Failure.report (f : Failure) : String :=
  "ERROR: Template Rendering Failed\n\n"
    ++ s!"Template: {f.template}\nError: {f.fault.message}\n" ++ f.fault.explanation

def Failure.advice (f : Failure) : Advice :=
  ⟨s!"{f.message}: {f.fault.message}", f.report, "Check the variables passed to the template"⟩

end Render

def Failure.advice (f : Failure) : Advice :=
  match f with
  | templateNotFound _ searched =>
    let places := ", ".intercalate (searched.map Path.text)
    ⟨f.message, if searched.isEmpty then none else some s!"Searched: {places}",
      "Check the template name and --template-dir"⟩
  | invalidBindings _ =>
    ⟨f.message, none, "Pass variables as a JSON object, e.g. '\x7b\"name\": \"value\"\x7d'"⟩
  | compile failure => failure.advice
  | render failure => failure.advice
  | cache _ _ cause =>
    ⟨f.message, cause, "Check permissions on the cache directory or run 'stencil cache clear'"⟩
  | settings _ => ⟨f.message, none, "Check the syntax of stencil.toml"⟩

-- Of a failure of the engine, its own advice says enough.
def Trouble.advice (t : Trouble) : Advice :=
  match t.cause with
  | .engine failure => failure.advice
  | .malformedSettings message =>
    ⟨t.fullMessage, message, "Check the TOML syntax in your configuration file"⟩
  | .denied _ =>
    ⟨t.fullMessage, none, "Check file permissions and try running with appropriate privileges"⟩
  | .other _ => ⟨t.fullMessage, none, none⟩

end TemplateEngine
