import TemplateEngine.CommandLine.Grammar
import TemplateEngine.Files.Path

-- The arguments of the program, read into a request.
namespace TemplateEngine.CommandLine

structure Given where
  level : Level
  flags : List Flag
  settings : List (Setting × String)
  name : Option String
deriving DecidableEq, Repr

-- What is read so far. A setting is pending until the next argument; it may still lack its value.
structure Progress where
  given : Given
  pending : Option (Setting × Option String)
deriving DecidableEq, Repr

namespace Given

def set (g : Given) (s : Setting) (value : String) : Except Refusal Given :=
  if !s.repeats && g.settings.any (·.1 == s) then .error .conflict
  else if !s.accepts value then .error .invalidValue
  else .ok { g with settings := g.settings ++ [(s, value)] }

def raise (g : Given) (f : Flag) : Except Refusal Given :=
  if g.flags.contains f then .error .conflict else .ok { g with flags := g.flags ++ [f] }

-- Checks what a command needs and what does not go together. `inner` tells whether another
-- command follows.
def check (g : Given) (inner : Bool) : Except Refusal Given :=
  if !inner && g.level.hasCommands then
    .error (if g.flags.isEmpty && g.settings.isEmpty then .nothingGiven else .missingCommand)
  else if g.flags.contains .verbose && g.flags.contains .quiet then .error .conflict
  else if g.level.takesName && g.name.isNone then .error .missingArgument
  else .ok g

end Given

namespace Progress

def start (l : Level) : Progress := ⟨⟨l, [], [], none⟩, none⟩

def awaitsValue (p : Progress) : Bool := p.pending.any fun (_, value) => value.isNone

def settle (p : Progress) : Except Refusal Given :=
  match p.pending with
  | none => .ok p.given
  | some (_, none) => .error .invalidValue
  | some (s, some value) => p.given.set s value

def apply (p : Progress) (s : Switch) (attached : Option String) : Except Refusal Progress :=
  match s, attached with
  | .request _, some _ | .flag _, some _ => .error .needlessValue
  | .request r, none => do
    let _ ← p.settle
    throw r
  | .flag f, none => do return ⟨← (← p.settle).raise f, none⟩
  | .setting s, none => do return ⟨← p.settle, some (s, none)⟩
  | .setting s, some value => do return ⟨← (← p.settle).set s value, none⟩

def applyLetters (p : Progress) : List Char → Except Refusal Progress
  | [] => .ok p
  | c :: cs =>
    match p.given.level.letter? c with
    | none => .error .unknownArgument
    | some s => do (← p.apply s none).applyLetters cs

-- Applies an option that is written out, with its value behind an equals sign if there is one.
def applyWord (p : Progress) (body : List Char) : Except Refusal Progress :=
  let name := body.takeWhile (· != '=')
  let attached :=
    match body.drop name.length with
    | _ :: value => some (String.ofList value)
    | [] => none
  match p.given.level.switch? (String.ofList name) with
  | none => .error .unknownArgument
  | some s => p.apply s attached

-- Takes an argument that is no option: a value, or a name. `only` tells that no options follow.
def take (p : Progress) (only : Bool) (arg : String) : Except Refusal Progress :=
  let l := p.given.level
  match p.pending, only with
  | some (s, none), false => .ok { p with pending := some (s, some arg) }
  | _, _ =>
    if l.takesName && p.given.name.isNone then do
      return ⟨{ ← p.settle with name := some arg }, none⟩
    else if only && l.isCommand arg then .error .unknownArgument
    else if l.hasCommands then .error .unknownCommand
    else .error .unknownArgument

def close (p : Progress) (inner : Bool) : Except Refusal Given := do (← p.settle).check inner

end Progress

def helpOn (l : Level) : List String → Refusal
  | [] => .help
  | arg :: rest =>
    match l.command? arg with
    | some inner => helpOn inner rest
    | none => if l.isCommand arg && rest.isEmpty then .help else .unknownCommand

def readLevel (p : Progress) (only : Bool) : List String → Except Refusal (List Given)
  | [] => do return [← p.close false]
  | arg :: rest =>
    if only then do readLevel (← p.take true arg) true rest
    else if !p.awaitsValue && p.given.level.isCommand arg then
      match p.given.level.command? arg with
      | none => .error (helpOn p.given.level rest)
      | some inner => do
        let others ← readLevel (.start inner) false rest
        return (← p.close true) :: others
    else
      match arg.toList with
      | ['-', '-'] => readLevel p true rest
      | '-' :: '-' :: body => do readLevel (← p.applyWord body) false rest
      | '-' :: c :: letters => do readLevel (← p.applyLetters (c :: letters)) false rest
      | _ => do readLevel (← p.take false arg) false rest

inductive Command where
  | render (name : String) (vars : List String) (varsFile : Option Path) (strict : Bool)
  | compile (name : String) (codeOnly : Bool)
  | listCache
  | clearCache
deriving DecidableEq, Repr

structure Request where
  command : Command
  verbose : Bool
  quiet : Bool
  config : Option Path
  templateDir : Option Path
  cacheDir : Option Path
deriving DecidableEq, Repr

def Request.logLevel (r : Request) : Option String :=
  if r.verbose then some "debug" else if r.quiet then none else some "warn"

def Given.path? (g : Given) (s : Setting) : Option Path := (g.settings.lookup s).map (⟨·⟩)

def Given.command? (g : Given) : Option Command :=
  match g.level, g.name with
  | .render, some name =>
    let vars := g.settings.filterMap fun (s, value) => if s = .var then some value else none
    some (.render name vars (g.path? .varsFile) (g.flags.contains .strict))
  | .compile, some name => some (.compile name (g.flags.contains .codeOnly))
  | .list, _ => some .listCache
  | .clear, _ => some .clearCache
  | _, _ => none

-- Flags count wherever they stand. Of settings for several commands the innermost one counts.
def requestOf? (all : List Given) : Option Request := do
  let command ← (← all.getLast?).command?
  let path? (s : Setting) := all.reverse.findSome? (·.path? s)
  return {
    command
    verbose := all.any (·.flags.contains .verbose)
    quiet := all.any (·.flags.contains .quiet)
    config := path? .config
    templateDir := path? .templateDir
    cacheDir := path? .cacheDir }

def read (args : List String) : Except Refusal Request := do
  match requestOf? (← readLevel (.start .root) false args) with
  | some r => return r
  | none => throw .missingCommand

end TemplateEngine.CommandLine
