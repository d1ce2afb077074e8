import TemplateEngine.Compile.Locate
import TemplateEngine.Program.Basic

-- The settings of an engine.
namespace TemplateEngine

structure Settings where
  templateDir : Path
  cacheDir : Path
  extension : String
  autoEscape : Bool
  strict : Bool
deriving DecidableEq, Repr

namespace Settings

-- Cached programs go to their own directory in the common place for cached data, or else into
-- the working directory.
def defaultCacheDir (h : Host) : Path :=
  match h.cacheHome with
  | some dir => dir.join "stencil"
  | none => ⟨".stencil-cache"⟩

def default (h : Host) : Settings := ⟨⟨"templates"⟩, defaultCacheDir h, "html", true, false⟩

def compileOptions (s : Settings) : Compile.Options := ⟨s.templateDir, s.extension, s.autoEscape⟩

def salt (s : Settings) : String :=
  let escape := if s.autoEscape then "true" else "false"
  s!"v{Program.currentVersion};auto_escape={escape};ext={s.extension};dir={s.templateDir.text}"

-- An extension comes without its point and names no other directory.
def extensionFits (extension : String) : Bool :=
  extension.toList.head? != some '.' && !extension.toList.any fun c => c == '/' || c == '\\'

end Settings

end TemplateEngine
