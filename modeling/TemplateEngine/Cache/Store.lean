import TemplateEngine.Cache.Key
import TemplateEngine.Cache.Record

-- A directory of compiled programs. An entry is a file of code and a file of metadata, both named
-- by a key, and each source has an index. The code is written before the metadata and removed
-- after it, so that metadata always has its code, wherever a sequence of changes breaks off.
namespace TemplateEngine

structure Cache where
  dir : Path
deriving DecidableEq, Repr

namespace Cache

-- A change to a single file or tree.
inductive Change where
  | write (path : Path) (content : String)
  | remove (path : Path)
  | removeTree (path : Path)
deriving DecidableEq, Repr

namespace Change

def make : Change → Action Failure Unit
  | write path content => ExceptT.adapt (.cache "write" path) (Action.writeFile path content.toUTF8)
  | remove path => ExceptT.adapt (.cache "remove" path) do
    let _ ← Action.removeFile path
  | removeTree path => do
    if (← Action.query (Host.isDirectory · path)) then
      ExceptT.adapt (fun fault => .cache "clear" path fault.message) (Action.removeTree path)

def makeAll (changes : List Change) : Action Failure Unit := changes.forM make

end Change

def codePath (c : Cache) (key : Key) : Path := c.dir.join s!"{key.digits}.code.json"

def metaSuffix : String := ".meta.json"

def metaPath (c : Cache) (key : Key) : Path := c.dir.join (key.digits ++ metaSuffix)

def indexDir (c : Cache) : Path := c.dir.join "index"

def indexPath (c : Cache) (source : Path) : Path := c.indexDir.join s!"{digest source.text}.json"

-- The cache in a directory, which is created if need be.
def create (dir : Path) : Action Failure Cache := do
  ExceptT.adapt (.cache "create" dir) (Action.ensureDirectory dir)
  return ⟨dir⟩

inductive Lookup where
  | missing
  | stale
  | fresh (code : String) (metadata : Metadata)
deriving DecidableEq, Repr

def metadataAt? (h : Host) (p : Path) : Option Metadata := (h.read p).toOption.bind Metadata.ofText?

-- An entry that cannot be read counts as stale.
def lookup (c : Cache) (h : Host) (key : Key) : Lookup :=
  if h.present (c.metaPath key) then
    match metadataAt? h (c.metaPath key) with
    | none => .stale
    | some metadata =>
      if metadata.isFresh h then
        match h.read (c.codePath key) with
        | .ok code => .fresh code metadata
        | .error _ => .stale
      else .stale
  else .missing

-- The index of a source, unless it cannot be read or a dependency is gone.
def index? (c : Cache) (h : Host) (source : Path) : Option Index := do
  let i ← (h.read (c.indexPath source)).toOption.bind Index.ofText?
  if i.source.same source && i.dependencies.all h.present then return i else none

def indexing (c : Cache) (i : Index) : Change := .write (c.indexPath i.source) i.text

def storing (c : Cache) (key : Key) (code : String) (metadata : Metadata)
    (resolutions : List Compile.Resolution) : List Change :=
  [.write (c.codePath key) code,
   .write (c.metaPath key) metadata.text,
   c.indexing ⟨metadata.source, metadata.dependencies, resolutions⟩]

def removing (c : Cache) (key : Key) : List Change := [.remove (c.metaPath key), .remove (c.codePath key)]

def store (c : Cache) (key : Key) (code : String) (metadata : Metadata)
    (resolutions : List Compile.Resolution) : Action Failure Unit :=
  Change.makeAll (c.storing key code metadata resolutions)

def writeIndex (c : Cache) (i : Index) : Action Failure Unit := (c.indexing i).make

def remove (c : Cache) (key : Key) : Action Failure Unit := Change.makeAll (c.removing key)

def keyOfName? (name : String) : Option Key :=
  if name.endsWith metaSuffix then
    some ⟨String.ofList (name.toList.take (name.length - metaSuffix.length))⟩
  else none

-- Entries stand in the order of their sources, then of their keys.
def entryBefore (a b : Key × Metadata) : Bool :=
  if a.2.source.before b.2.source then true
  else if b.2.source.before a.2.source then false
  else !(b.1.digits < a.1.digits)

def entries (c : Cache) (h : Host) : Except Failure (List (Key × Metadata)) :=
  match h.list c.dir with
  | .error fault => .error (.cache "list" c.dir fault.message)
  | .ok names =>
    let found := names.filterMap fun name => do
      let key ← keyOfName? name
      let metadata ← metadataAt? h (c.dir.join name)
      return (key, metadata)
    .ok (found.mergeSort entryBefore)

def clearing (c : Cache) (keys : List Key) : List Change :=
  keys.flatMap c.removing ++ [.removeTree c.indexDir]

-- Removes all entries and indexes; tells the number of entries.
def clear (c : Cache) : Action Failure Nat := do
  let all ← liftExcept (c.entries (← get))
  Change.makeAll (c.clearing (all.map (·.1)))
  return all.length

end Cache

end TemplateEngine
