import TemplateEngine.Render.Machine

-- What a program stands for, told without a machine: the text of each node under the frames in
-- scope. Nothing is written, no frame is pushed or taken away, and every expression is read anew.
namespace TemplateEngine.Render

variable {α : Type}

-- The first fault of a program, with the frames in scope where it arises.
structure Stop where
  frames : List Bindings
  fault : Fault

def located (frames : List Bindings) (x : Except Fault α) : Except Stop α :=
  x.mapError fun fault => ⟨frames, fault⟩

def valueOf (rules : Rules) (frames : List Bindings) (source : String) : Except Fault Value :=
  match Expr.read source with
  | .error fault => .error (.expression source fault.message)
  | .ok e => (e.eval (lookup frames) rules.strict).mapError (faultOf frames source)

def filtered (rules : Rules) (v : Value) (name : String) : Except Fault Value :=
  match rules.registry.get? name with
  | none => .error (.unknownFilter name)
  | some .raw => .ok v
  | some (.transform f) => (f v).mapError (.filter name)

def shownText (escape : Bool) (v : Value) : String :=
  if escape then String.ofList (Html.escape v.text.toList) else v.text

mutual

-- A loop stands for its rounds one after the other, each under one more frame.
def textOf (rules : Rules) (frames : List Bindings) : Node → Except Stop String
  | .text content => .ok content
  | .echo expr filters escape => do
    let v ← located frames (valueOf rules frames expr)
    let w ← located frames (filters.foldlM (filtered rules) v)
    return shownText escape w
  | .choice branches none => do
    let taken ← textOfBranches rules frames branches
    return taken.getD ""
  | .choice branches (some body) => do
    let taken ← textOfBranches rules frames branches
    match taken with
    | some text => return text
    | none => textOfAll rules frames body
  | .loop kind header body => do
    let parsed ← located frames (LoopHeader.read kind header)
    let v ← located frames (valueOf rules frames parsed.iterable)
    let items ← located frames (itemsOf parsed.iterable v)
    let rounds ← items.zipIdx.mapM fun ((key, value), index) =>
      textOfAll rules (roundFrame parsed index items.length key value :: frames) body
    return String.join rounds
  | .block _ body => textOfAll rules frames body
  | .parent => .ok ""
  | .extending name _ | .including name _ =>
    .error ⟨frames, .invalidProgram s!"unresolved reference to template '{name}'"⟩

def textOfAll (rules : Rules) (frames : List Bindings) : List Node → Except Stop String
  | [] => .ok ""
  | node :: nodes => do
    let first ← textOf rules frames node
    let others ← textOfAll rules frames nodes
    return first ++ others

-- The text of the first branch whose condition holds, if there is one.
def textOfBranches (rules : Rules) (frames : List Bindings) :
    List (Branch Node) → Except Stop (Option String)
  | [] => .ok none
  | ⟨condition, body⟩ :: branches => do
    let v ← located frames (valueOf rules frames condition)
    if v.truthy then
      let text ← textOfAll rules frames body
      return some text
    else textOfBranches rules frames branches

end

end TemplateEngine.Render
