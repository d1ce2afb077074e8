import TemplateEngine.Engine.Basic
import TemplateEngine.Render.Machine

-- Templates and texts rendered by an engine.
namespace TemplateEngine.Engine

-- Variables come as an object; null stands for none.
def bindingsOf : Value → Except Failure Bindings
  | .object fields => .ok fields
  | .null => .ok []
  | v => .error (.invalidBindings v.kind)

def rules (e : Engine) : Render.Rules := ⟨e.registry, e.settings.strict⟩

def run (e : Engine) (template : String) (p : Program) (bindings : Bindings) : Except Failure String :=
  (Render.render e.rules template p bindings).mapError .render

def render (e : Engine) (name : String) (vars : Value) : Work String := do
  let bindings ← liftExcept (bindingsOf vars)
  let loaded ← e.compile name
  liftExcept (e.run name loaded.program bindings)

def renderText (e : Engine) (h : Host) (source : String) (vars : Value) : Except Failure String := do
  let bindings ← bindingsOf vars
  let compiled ← (Compile.compile e.compiler h source none).mapError .compile
  match Program.ofCode? compiled.code with
  | some program => e.run "<inline>" program bindings
  | none => throw (.compile ⟨none, .undecodable⟩)

end TemplateEngine.Engine
