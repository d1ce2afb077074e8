import TemplateEngine.Advice
import TemplateEngine.CommandLine.Arguments
import TemplateEngine.Engine.Render
import TemplateEngine.Filter.Builtin
import TemplateEngine.Settings.Load
import TemplateEngine.Text.Blank

-- What requests do. A request that succeeds answers with all that it prints.
namespace TemplateEngine.CommandLine

abbrev Job := Action Trouble

-- A variable: a name, an equals sign, and a value in JSON or else as plain text.
def readVariable (raw : String) : Except Trouble (String × Value) :=
  let front := raw.toList.takeWhile (· != '=')
  match raw.toList.drop front.length with
  | [] => .error (.ofMessage s!"Invalid --var '{raw}': expected KEY=VALUE")
  | _ :: rest =>
    let name := String.ofList (Text.trim front)
    let value := String.ofList rest
    if name.isEmpty then .error (.ofMessage s!"Invalid --var '{raw}': empty key")
    else .ok (name, (Json.readValue? value).getD (.string value))

def variablesIn (h : Host) (file : Path) : Except Trouble Bindings :=
  match h.read file with
  | .error fault => .error ⟨[s!"Failed to read variables from {file.text}"], .other fault.message⟩
  | .ok text =>
    match Json.readValue? text with
    | none => .error ⟨[s!"Failed to parse variables from {file.text}"], .other "malformed JSON"⟩
    | some (.object fields) => .ok fields
    | some _ => .error (.ofMessage s!"Variables file {file.text} must contain a JSON object")

-- All variables. The ones given one by one come after those in a file.
def allVariables (h : Host) (vars : List String) (file : Option Path) : Except Trouble Bindings := do
  let base ←
    match file with
    | some file => variablesIn h file
    | none => pure []
  return (← vars.mapM readVariable).foldl (fun all (name, v) => Bindings.insert name v all) base

def settings (r : Request) (environment : Option String) (h : Host) : Except Trouble Settings := do
  let s ← Settings.load h r.config environment
  return { s with
    templateDir := r.templateDir.getD s.templateDir
    cacheDir := r.cacheDir.getD s.cacheDir }

-- The work of an engine as a job. Its counters start at zero.
def work {α : Type} (s : Settings) (task : Engine → Engine.Work α) : Job (α × Counters) :=
  ExceptT.adapt Trouble.ofFailure do
    let e ← Engine.create s .standard
    ExceptT.mk fun h =>
      let (result, after) := (task e).run ⟨h, .zero⟩
      (result.map (·, after.counters), after.host)

def onCache {α : Type} (action : Action Failure α) : Job α :=
  ExceptT.adapt (fun
    | .cache operation path cause => ⟨[(Failure.cache operation path cause).message], .other cause⟩
    | failure => .ofFailure failure) action

def compiledText (loaded : Loaded) (counters : Counters) : String :=
  let origin := if 0 < counters.hits then "cached" else "compiled"
  let dependencies :=
    if loaded.dependencies.isEmpty then "Dependencies: none\n"
    else "Dependencies:\n" ++ lines (loaded.dependencies.map fun p => s!"  {p.text}")
  s!"Template: {loaded.source.text} ({origin})\n{dependencies}Code:\n{loaded.code}\n"

-- The first twelve bytes of a key, or all of it where no character ends there.
def shortKey (key : Cache.Key) : String :=
  let front := (List.range (key.digits.length + 1)).map fun n => String.ofList (key.digits.toList.take n)
  (front.find? fun s => s.utf8ByteSize == 12).getD key.digits

def entryText (entry : Cache.Key × Cache.Metadata) : String :=
  let (key, m) := entry
  s!"  {shortKey key} {m.source.text} {m.dependencies.length} dependencies, compiled {m.compiledAt.plainStamp}"

def listText (c : Cache) (entries : List (Cache.Key × Cache.Metadata)) (quiet : Bool) : String :=
  if !entries.isEmpty then lines (s!"Cached templates ({c.dir.text})" :: entries.map entryText)
  else if quiet then ""
  else s!"No cached templates in {c.dir.text}\n"

def run (r : Request) (environment : Option String) : Job String := do
  match r.command with
  | .render name vars file strict =>
    let bindings ← liftExcept (allVariables (← get) vars file)
    let s ← liftExcept (settings r environment (← get))
    let (output, _) ← work { s with strict := s.strict || strict } (·.render name (.object bindings))
    return output
  | .compile name codeOnly =>
    let s ← liftExcept (settings r environment (← get))
    let (loaded, counters) ← work s (·.compile name)
    return if codeOnly then loaded.code ++ "\n" else compiledText loaded counters
  | .listCache =>
    let s ← liftExcept (settings r environment (← get))
    let c ← onCache (Cache.create s.cacheDir)
    let entries ← onCache (liftExcept (c.entries (← get)))
    return listText c entries r.quiet
  | .clearCache =>
    let s ← liftExcept (settings r environment (← get))
    let c ← onCache (Cache.create s.cacheDir)
    let removed ← onCache c.clear
    return if r.quiet then ""
      else s!"✓ Removed {removed} cached template(s) from {c.dir.text}\n"

end TemplateEngine.CommandLine
