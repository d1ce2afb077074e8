import TemplateEngine.Markup.Node
import TemplateEngine.Render.Fault
import TemplateEngine.Text.Blank
import TemplateEngine.Text.Letter
import TemplateEngine.Text.Search

-- Loop headers: `items as item` and `items as key => item`, or `item in items` and
-- `key, item in items`.
namespace TemplateEngine.Render

structure LoopHeader where
  iterable : String
  key : Option String
  value : String
deriving DecidableEq, Repr

-- The name of a loop variable, with or without its sigil.
def loopVariable (header : String) (raw : List Char) : Except Fault String :=
  let shown := Text.trim raw
  let name :=
    match shown with
    | '$' :: rest => rest
    | all => all
  if Text.isName name then .ok (String.ofList name)
  else .error (.invalidLoop header s!"'{String.ofList shown}' is not a valid loop variable")

def expectedShape : LoopKind → String
  | .foreach => "<expr> as <name>"
  | .forIn => "<name> in <expr>"

-- The two sides of a header: the iterable, and the variables.
def headerSides (kind : LoopKind) (header : List Char) : Option (List Char × List Char) :=
  match kind with
  | .foreach => Text.cutLast " as ".toList header
  | .forIn => (Text.cut " in ".toList header).map Prod.swap

def variableSeparator : LoopKind → List Char
  | .foreach => "=>".toList
  | .forIn => ",".toList

def malformed (header expected : String) : Fault := .invalidLoop header s!"expected '{expected}'"

def LoopHeader.read (kind : LoopKind) (header : String) : Except Fault LoopHeader := do
  match headerSides kind header.toList with
  | none => throw (malformed header (expectedShape kind))
  | some (iterable, names) =>
    let (key, value) ←
      match Text.cut (variableSeparator kind) names with
      | some (key, value) =>
        let key ← loopVariable header key
        let value ← loopVariable header value
        pure (some key, value)
      | none =>
        let value ← loopVariable header names
        pure (none, value)
    let iterable := Text.trim iterable
    if iterable.isEmpty then throw (malformed header "an iterable expression")
    return ⟨String.ofList iterable, key, value⟩

end TemplateEngine.Render
