import TemplateEngine.CommandLine.Run

-- The program. It reads the files that a request can concern, runs the request on them, and
-- writes back what has changed.
namespace TemplateEngine.Main

def locationOf (text : String) : Location :=
  (Path.parts ⟨text⟩).filterMap fun
    | .name n => some n
    | _ => none

def leading (l : Location) : List Location := (List.range l.length).map fun n => l.take (n + 1)

def entryOf (text : String) : IO Entry := do
  let place ← IO.FS.realPath text
  let data ← place.metadata
  let changed : Instant := ⟨data.modified.sec, data.modified.nsec.toNat⟩
  if ← place.isDir then return .directory changed
  else return .file (← IO.FS.readBinFile place) changed

-- A tree with a place on disk, all below it, and the directories that lead to it.
def withPlace (tree : FileTree) (text : String) : IO FileTree := do
  try
    let place ← IO.FS.realPath text
    let below ← if ← place.isDir then place.walkDir else pure #[]
    let mut all := tree
    for l in leading (locationOf place.toString) do
      all := all.set l (← entryOf l.path.text)
    for inner in below do
      all := all.set (locationOf inner.toString) (← entryOf inner.toString)
    return all
  catch _ => return tree

def withPlaces (tree : FileTree) (places : List Path) : IO FileTree :=
  places.foldlM (fun all p => withPlace all p.text) tree

def searched (t : Trouble) : List Path :=
  match t.cause with
  | .engine (.templateNotFound _ paths) => paths
  | .engine (.compile ⟨_, .templateNotFound _ paths⟩) => paths
  | _ => []

-- Runs a request. Directories of templates that are on disk but not yet in the tree are added
-- to it, and the request is run again.
partial def attempt (r : CommandLine.Request) (environment : Option String) (h : Host) :
    IO (Except Trouble String × Host) := do
  let outcome := (CommandLine.run r environment).run h
  let unseen ←
    match outcome.1 with
    | .ok _ => pure []
    | .error t => (searched t).filterM fun p => do
      return !h.present p && (← (try return !(← (← IO.FS.realPath p.text).isDir) catch _ => return false))
  if unseen.isEmpty then return outcome
  else
    let more ← withPlaces h.tree (unseen.map Path.directory)
    if unseen.all fun p => (more.resolve h.cwd p).toBool then attempt r environment { h with tree := more }
    else return outcome

def differs (t : FileTree) (l : Location) (e : Entry) : Bool :=
  match t.entry? l, e with
  | some (.file old _), .file new _ => old.toList != new.toList
  | some (.directory _), .directory _ => false
  | _, _ => true

-- Makes the disk agree with a tree, given the tree that it agreed with before.
def writeBack (before after : FileTree) : IO Unit := do
  for (l, e) in before.entries do
    if (after.entry? l).isNone then
      match e with
      | .file _ _ => IO.FS.removeFile l.path.text
      | .directory _ => pure ()
  for (l, e) in after.entries do
    if differs before l e then
      match e with
      | .file content _ =>
        IO.FS.createDirAll l.parent.path.text
        IO.FS.writeBinFile l.path.text content
      | .directory _ => IO.FS.createDirAll l.path.text

-- The present time, as a file that is made now has it.
def now : IO Instant :=
  IO.FS.withTempFile fun _ path => do
    let data ← path.metadata
    return ⟨data.modified.sec, data.modified.nsec.toNat⟩

def cacheHome : IO (Option Path) := do
  match ← IO.getEnv "XDG_CACHE_HOME", ← IO.getEnv "HOME" with
  | some dir, home =>
    if (⟨dir⟩ : Path).isAbsolute then return some ⟨dir⟩ else return home.map fun h => (⟨h⟩ : Path).join ".cache"
  | none, home => return home.map fun h => (⟨h⟩ : Path).join ".cache"

def usage : String :=
  "usage: stencil [--verbose | --quiet] [--config FILE] [--template-dir DIR] [--cache-dir DIR]
         render NAME [--var KEY=VALUE]... [--vars-file FILE] [--strict]
       | compile NAME [--code-only]
       | cache list
       | cache clear"

def execute (r : CommandLine.Request) : IO UInt32 := do
  let environment ← IO.getEnv "STENCIL_CONFIG"
  let cwd := locationOf (← IO.currentDir).toString
  let named :=
    match r.command with
    | .render _ _ (some file) _ => [file]
    | _ => []
  let files := r.config.toList ++ (environment.map (⟨·⟩)).toList ++ [Settings.localFile] ++ named
  let tree ← withPlaces ⟨(leading cwd).map fun l => (l, .directory ⟨0, 0⟩)⟩ files
  let h : Host := { tree, cwd, clock := ← now, cacheHome := ← cacheHome }
  let places :=
    match CommandLine.settings r environment h with
    | .ok s => [s.templateDir, s.cacheDir]
    | .error _ => []
  let (result, after) ← attempt r environment { h with tree := ← withPlaces tree places }
  writeBack tree after.tree
  match result with
  | .ok out =>
    IO.print out
    return 0
  | .error t =>
    let a := t.advice
    IO.eprintln s!"error: {a.message}"
    for details in a.details do IO.eprintln s!"details: {details}"
    for suggestion in a.suggestion do IO.eprintln s!"suggestion: {suggestion}"
    return 1

end TemplateEngine.Main

def main (args : List String) : IO UInt32 := do
  match TemplateEngine.CommandLine.read args with
  | .ok r => TemplateEngine.Main.execute r
  | .error refusal =>
    match refusal with
    | .help => IO.println TemplateEngine.Main.usage
    | .version => IO.println "stencil 0.1.0"
    | _ => IO.eprintln TemplateEngine.Main.usage
    return refusal.status.toUInt32
