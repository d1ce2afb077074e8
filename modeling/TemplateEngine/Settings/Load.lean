import TemplateEngine.Failure
import TemplateEngine.Settings.Basic
import TemplateEngine.Toml.Reader

-- Settings read from a file: one that is named, one that the environment names, or the one in
-- the working directory. Without any of them the defaults hold.
namespace TemplateEngine.Settings

def path? : Toml.Value → Option Path
  | .string s => some ⟨s⟩
  | _ => none

def text? : Toml.Value → Option String
  | .string s => some s
  | _ => none

def flag? : Toml.Value → Option Bool
  | .bool b => some b
  | _ => none

-- The value of a field, which has to be of the right kind if it is there.
def fieldOr {α : Type} (read : Toml.Value → Option α) (default : α) (name : String) (fields : Toml.Fields) :
    Option α :=
  match fields.lookup name with
  | none => some default
  | some v => read v

-- Settings with the given fields. Fields of other names do not matter.
def ofFields? (base : Settings) (fields : Toml.Fields) : Option Settings := do
  return {
    templateDir := ← fieldOr path? base.templateDir "template_dir" fields
    cacheDir := ← fieldOr path? base.cacheDir "cache_dir" fields
    extension := ← fieldOr text? base.extension "extension" fields
    autoEscape := ← fieldOr flag? base.autoEscape "auto_escape" fields
    strict := ← fieldOr flag? base.strict "strict_variables" fields }

-- Relative directories are meant from the place of the settings file.
def fromPlace (file p : Path) : Path :=
  match file.parent? with
  | some dir => if dir.text.isEmpty || p.isAbsolute then p else dir.join p.text
  | none => p

def loadFrom (h : Host) (file : Path) : Except Trouble Settings :=
  match h.read file with
  | .error fault => .error ⟨[s!"Failed to read config from {file.text}"], .other fault.message⟩
  | .ok text =>
    match (Toml.read? text).bind (ofFields? (default h)) with
    | none =>
      .error ⟨[s!"Failed to parse config from {file.text}"], .malformedSettings "malformed settings"⟩
    | some s => .ok { s with
        templateDir := fromPlace file s.templateDir
        cacheDir := fromPlace file s.cacheDir }

def localFile : Path := ⟨"stencil.toml"⟩

-- The settings that hold. An empty name in the environment counts for nothing.
def load (h : Host) (named : Option Path) (environment : Option String) : Except Trouble Settings :=
  match named, environment.filter (!·.isEmpty) with
  | some file, _ => loadFrom h file
  | none, some file => loadFrom h ⟨file⟩
  | none, none => if h.isFile localFile then loadFrom h localFile else .ok (default h)

end TemplateEngine.Settings
