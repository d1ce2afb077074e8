import TemplateEngine.Files.Host

-- Finding templates by name: beside the template that names them, then in the template directory,
-- as written and with the usual extension.
namespace TemplateEngine.Compile

structure Options where
  templateDir : Path
  extension : String
  autoEscape : Bool
deriving DecidableEq, Repr

def candidates (dir : Path) (name extension : String) : List Path :=
  if (⟨name⟩ : Path).hasExtension || extension.isEmpty then [dir.join name]
  else [dir.join name, dir.join (name ++ "." ++ extension)]

-- The directories that are searched, each once.
def searchDirs (options : Options) (current : Option Path) : List Path :=
  match current.bind Path.parent? with
  | none => [options.templateDir]
  | some dir => if dir.same options.templateDir then [dir] else [dir, options.templateDir]

def allCandidates (options : Options) (name : String) (current : Option Path) : List Path :=
  (searchDirs options current).flatMap fun dir => candidates dir name options.extension

def fileAt? (h : Host) (p : Path) : Option Location :=
  match h.resolve p with
  | .ok l => if (h.tree.entry? l).any Entry.isFile then some l else none
  | .error _ => none

-- The place of the first candidate that is a file, or else all candidates.
def locate (options : Options) (h : Host) (name : String) (current : Option Path) :
    Except (List Path) Location :=
  let all := allCandidates options name current
  match all.findSome? (fileAt? h) with
  | some l => .ok l
  | none => .error all

-- How a name was found. The origin is the template that names it; inline text has none.
structure Resolution where
  name : String
  origin : Option Path
  resolved : Path
deriving DecidableEq, Repr

def Resolution.holds (r : Resolution) (options : Options) (h : Host) : Bool :=
  match locate options h r.name r.origin with
  | .ok l => l.path.same r.resolved
  | .error _ => false

def sameOrigin : Option Path → Option Path → Bool
  | none, none => true
  | some p, some q => p.same q
  | _, _ => false

end TemplateEngine.Compile
