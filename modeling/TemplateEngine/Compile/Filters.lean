import TemplateEngine.Compile.Fault
import TemplateEngine.Filter.Registry
import TemplateEngine.Markup.Node
import TemplateEngine.Text.Search

-- The filters of a template: all must be registered, and they decide what is escaped.
namespace TemplateEngine.Compile

-- The line on which an expression first occurs, or the first line.
def lineOf (source : List Char) (expr : String) : Nat :=
  match Text.cut expr.toList source with
  | some (before, _) => Text.newlines before + 1
  | none => 1

def isEscape (filter : String) : Bool := filter == "escape" || filter == "e"

-- An echo is escaped unless its chain asks for raw output or ends by escaping.
def escapes (autoEscape : Bool) (filters : List String) : Bool :=
  autoEscape && !filters.contains "raw"
    && !(((filters.filter (· != "raw")).getLast?).any isEscape)

mutual

-- Checks the filters below a node and settles the escaping of its echoes.
def settle (registry : Registry) (autoEscape : Bool) (source : List Char) : Node → Except Fault Node
  | .echo expr filters _ =>
    match filters.find? fun f => !registry.contains f with
    | some unknown => .error (.unknownFilter unknown (lineOf source expr) (registry.suggestions unknown))
    | none => .ok (.echo expr (filters.filter (· != "raw")) (escapes autoEscape filters))
  | .choice branches none => do
    return .choice (← settleBranches registry autoEscape source branches) none
  | .choice branches (some body) => do
    let branches ← settleBranches registry autoEscape source branches
    return .choice branches (some (← settleAll registry autoEscape source body))
  | .loop kind header body => do
    return .loop kind header (← settleAll registry autoEscape source body)
  | .block name body => do
    return .block name (← settleAll registry autoEscape source body)
  | node => .ok node

def settleAll (registry : Registry) (autoEscape : Bool) (source : List Char) :
    List Node → Except Fault (List Node)
  | [] => .ok []
  | node :: nodes => do
    let node ← settle registry autoEscape source node
    return node :: (← settleAll registry autoEscape source nodes)

def settleBranches (registry : Registry) (autoEscape : Bool) (source : List Char) :
    List (Branch Node) → Except Fault (List (Branch Node))
  | [] => .ok []
  | ⟨condition, body⟩ :: branches => do
    let body ← settleAll registry autoEscape source body
    return ⟨condition, body⟩ :: (← settleBranches registry autoEscape source branches)

end

end TemplateEngine.Compile
