import TemplateEngine.Files.Tree

-- What a template engine finds around it: files, a working directory, the time, and a place for
-- cached data. Actions on files may change the tree even when they fail.
namespace TemplateEngine

structure Host where
  tree : FileTree
  cwd : Location
  clock : Instant
  cacheHome : Option Path

abbrev Action (ε : Type) := ExceptT ε (StateM Host)

namespace Host

def resolve (h : Host) (p : Path) : Except FileFault Location := h.tree.resolve h.cwd p

def entryAt (h : Host) (p : Path) : Except FileFault Entry :=
  match h.resolve p with
  | .error fault => .error fault
  | .ok l =>
    match h.tree.entry? l with
    | some e => .ok e
    | none => .ok (.directory h.clock)

def present (h : Host) (p : Path) : Bool := (h.resolve p).toBool

def isFile (h : Host) (p : Path) : Bool :=
  match h.entryAt p with
  | .ok e => e.isFile
  | .error _ => false

def isDirectory (h : Host) (p : Path) : Bool :=
  match h.entryAt p with
  | .ok e => !e.isFile
  | .error _ => false

def textAt (h : Host) (l : Location) : Except FileFault String :=
  match h.tree.entry? l with
  | some (.file content _) =>
    match String.fromUTF8? content with
    | some s => .ok s
    | none => .error .notText
  | some (.directory _) => .error .isDirectory
  | none => if l = [] then .error .isDirectory else .error .missing

def read (h : Host) (p : Path) : Except FileFault String := (h.resolve p).bind h.textAt

def changed (h : Host) (p : Path) : Except FileFault Instant := (h.entryAt p).map Entry.changed

def list (h : Host) (p : Path) : Except FileFault (List String) := do
  let l ← h.resolve p
  if h.tree.isDirectoryAt l then return (h.tree.namesIn l).mergeSort fun a b => !(b < a)
  else throw .notDirectory

-- The path of the place that a path leads to. Where it leads nowhere, the path from the root.
def absolute (h : Host) (p : Path) : Path :=
  match h.resolve p with
  | .ok l => l.path
  | .error _ => if p.isAbsolute then p else h.cwd.path.join p.text

end Host

namespace Action

def fail {ε α : Type} (e : ε) : Action ε α := throw e

def query {ε α : Type} (f : Host → α) : Action ε α := return f (← get)

def setTree {ε : Type} (tree : FileTree) : Action ε Unit := modify fun h => { h with tree }

-- The directories above a path, the nearest first.
def above (p : Path) : List Path :=
  (p.located.dropLast.map fun (_, stop) => (⟨String.ofList (p.text.toList.take stop)⟩ : Path)).reverse

def makeDirectory (p : Path) : Action FileFault Unit := do
  let h ← get
  match h.tree.vacancy h.cwd p with
  | .error fault => if h.isDirectory p then return () else fail fault
  | .ok l => setTree (h.tree.set l (.directory h.clock))

-- Creates the first of some directories, each of which is above the one before. Where that leads
-- nowhere, the others come first.
def makeFirst : List Path → Action FileFault Unit
  | [] => return ()
  | p :: above => do
    let h ← get
    if h.tree.vacancy h.cwd p matches .error .missing then makeFirst above
    makeDirectory p

-- Creates a directory and those above it that are missing.
def makeDirectories (p : Path) : Action FileFault Unit :=
  if p.parts.isEmpty then return () else makeFirst (p :: above p)

def ensureDirectory (p : Path) : Action String Unit := do
  if (← query (Host.present · p)) then
    if (← query (Host.isDirectory · p)) then return ()
    else fail s!"Path exists but is not a directory: {p.text}"
  else
    ExceptT.adapt (fun _ => s!"Failed to create directory: {p.text}") (makeDirectories p)

-- Puts a whole file in place in one step, in a directory that is created if need be.
def writeFile (p : Path) (content : ByteArray) : Action String Unit := do
  ensureDirectory p.directory
  let h ← get
  let misplaced := s!"Failed to rename temp file to: {p.text}"
  match h.tree.target h.cwd p with
  | .error _ => fail misplaced
  | .ok l =>
    if h.tree.isDirectoryAt l then fail misplaced
    else setTree (h.tree.set l (.file content h.clock))

def readText (p : Path) : Action String String := do
  match (← get).read p with
  | .ok s => return s
  | .error _ => fail s!"Failed to read file: {p.text}"

def changedAt (p : Path) : Action String Instant := do
  match (← get).changed p with
  | .ok t => return t
  | .error _ => fail s!"Failed to get metadata for: {p.text}"

def removeFile (p : Path) : Action String Bool := do
  let h ← get
  match h.resolve p with
  | .error .missing => return false
  | .error _ => fail s!"Failed to remove file: {p.text}"
  | .ok l =>
    if h.tree.isDirectoryAt l then fail s!"Failed to remove file: {p.text}"
    else
      setTree (h.tree.erase l)
      return true

def removeTree (p : Path) : Action FileFault Unit := do
  let h ← get
  match h.resolve p with
  | .error fault => fail fault
  | .ok l =>
    if h.tree.isDirectoryAt l then setTree (h.tree.erase l)
    else fail .notDirectory

end Action

end TemplateEngine
