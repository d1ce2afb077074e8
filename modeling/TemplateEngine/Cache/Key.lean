import TemplateEngine.Digest.Sha256
import TemplateEngine.Failure
import TemplateEngine.Files.Host

-- Keys of cached programs. A key stands for a source and its dependencies at the times when they
-- were last changed, so a change to any of them leads to another key.
namespace TemplateEngine.Cache

structure Key where
  digits : String
deriving DecidableEq, Repr

def digest (text : String) : String := Digest.sha256 text.toUTF8.toList

structure Stamped where
  path : Path
  changed : Instant
deriving DecidableEq, Repr

def Stamped.material (s : Stamped) : String := s!"{s.path.text}\x00{s.changed.sinceEpoch}\n"

namespace Key

def material (salt : String) (files : List Stamped) : String :=
  salt ++ "\n" ++ String.join (files.map Stamped.material)

def ofFiles (salt : String) (files : List Stamped) : Key := ⟨digest (material salt files)⟩

end Key

def stamped (h : Host) (p : Path) : Except Failure Stamped :=
  match h.changed p with
  | .ok t => .ok ⟨p, t⟩
  | .error _ => .error (.cache "fingerprint" p s!"Failed to get metadata for: {p.text}")

-- The key of a source. All files have to be there.
def keyOf (h : Host) (source : Path) (dependencies : List Path) (salt : String) : Except Failure Key := do
  return .ofFiles salt (← (source :: dependencies).mapM (stamped h))

end TemplateEngine.Cache
