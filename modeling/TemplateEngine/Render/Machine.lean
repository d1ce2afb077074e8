import TemplateEngine.Expr.Eval
import TemplateEngine.Expr.Grammar
import TemplateEngine.Filter.Registry
import TemplateEngine.Html
import TemplateEngine.Program.Basic
import TemplateEngine.Render.LoopHeader

-- The run of a program. A machine holds the output, the frames of names in scope, innermost
-- first, and the expressions read so far, so that each text is read once. A run that fails
-- leaves no output.
namespace TemplateEngine.Render

structure Machine where
  out : String
  frames : List Bindings
  known : List (String × Expr)

-- A step that fails keeps the state of the machine.
abbrev Run := ExceptT Fault (StateM Machine)

structure Rules where
  registry : Registry
  strict : Bool

def lookup (frames : List Bindings) (name : String) : Option Value :=
  frames.findSome? fun frame => frame.get? name

def namesInScope (frames : List Bindings) : List String := frames.flatMap Bindings.names

def write (text : String) : Run Unit := modify fun m => { m with out := m.out ++ text }

def expression (source : String) : Run Expr := do
  match (← get).known.lookup source with
  | some e => return e
  | none =>
    match Expr.read source with
    | .error fault => throw (.expression source fault.message)
    | .ok e =>
      modify fun m => { m with known := (source, e) :: m.known }
      return e

def faultOf (frames : List Bindings) (source : String) : Expr.Failure → Fault
  | .undefined name => .undefinedVariable name (Text.suggest name (namesInScope frames))
  | .invalid fault => .expression source fault.message

def evaluate (rules : Rules) (source : String) : Run Value := do
  let e ← expression source
  let frames := (← get).frames
  match e.eval (lookup frames) rules.strict with
  | .ok v => return v
  | .error failure => throw (faultOf frames source failure)

def applyFilter (rules : Rules) (v : Value) (name : String) : Run Value :=
  match rules.registry.get? name with
  | none => throw (.unknownFilter name)
  | some .raw => return v
  | some (.transform f) =>
    match f v with
    | .ok w => return w
    | .error message => throw (.filter name message)

def itemsOf (source : String) : Value → Except Fault (List (Value × Value))
  | .array items => .ok (items.mapIdx fun i item => (.natural i, item))
  | .object fields => .ok (fields.map fun (name, v) => (.string name, v))
  | .null => .ok []
  | v => .error (.notIterable source v.kind)

def roundInfo (index length : Nat) : Value := .object [
  ("first", .bool (index == 0)),
  ("index", .natural (index + 1)),
  ("index0", .natural index),
  ("last", .bool (index + 1 == length)),
  ("length", .natural length)]

-- The names in scope for one round. The name `loop` always stands for the round.
def roundFrame (header : LoopHeader) (index length : Nat) (key value : Value) : Bindings :=
  let named :=
    match header.key with
    | some name => Bindings.insert name key []
    | none => []
  Bindings.insert "loop" (roundInfo index length) (Bindings.insert header.value value named)

def setFrame (frame : Bindings) : Run Unit :=
  modify fun m => { m with frames := frame :: m.frames.tail }

-- Runs with one more frame, which is gone afterwards in any case.
def withFrame (run : Run Unit) : Run Unit :=
  ExceptT.mk fun m =>
    let (result, after) := run.run { m with frames := [] :: m.frames }
    (result, { after with frames := after.frames.tail })

mutual

def run (rules : Rules) : Node → Run Unit
  | .text content => write content
  | .echo expr filters escape => do
    let v ← evaluate rules expr
    let v ← filters.foldlM (applyFilter rules) v
    write (if escape then String.ofList (Html.escape v.text.toList) else v.text)
  | .choice branches none => do
    let _ ← runBranches rules branches
  | .choice branches (some body) => do
    let taken ← runBranches rules branches
    if !taken then runAll rules body
  | .loop kind header body => do
    let parsed ← liftExcept (LoopHeader.read kind header)
    let v ← evaluate rules parsed.iterable
    let items ← liftExcept (itemsOf parsed.iterable v)
    withFrame (items.zipIdx.forM fun ((key, value), index) => do
      setFrame (roundFrame parsed index items.length key value)
      runAll rules body)
  | .block _ body => runAll rules body
  | .parent => pure ()
  | .extending name _ | .including name _ =>
    throw (.invalidProgram s!"unresolved reference to template '{name}'")

def runAll (rules : Rules) : List Node → Run Unit
  | [] => pure ()
  | node :: nodes => do
    run rules node
    runAll rules nodes

-- Runs the first branch whose condition holds; tells whether there was one.
def runBranches (rules : Rules) : List (Branch Node) → Run Bool
  | [] => return false
  | ⟨condition, body⟩ :: branches => do
    let v ← evaluate rules condition
    if v.truthy then
      runAll rules body
      return true
    else runBranches rules branches

end

def render (rules : Rules) (template : String) (p : Program) (bindings : Bindings) :
    Except Failure String :=
  if p.version ≠ Program.currentVersion then
    .error ⟨template, .invalidProgram
      s!"program format version {p.version} (expected {Program.currentVersion})"⟩
  else
    match (runAll rules p.nodes).run ⟨"", [bindings], []⟩ with
    | (.ok (), m) => .ok m.out
    | (.error fault, _) => .error ⟨template, fault⟩

end TemplateEngine.Render
