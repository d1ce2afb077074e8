import TemplateEngine.Compile.Locate
import TemplateEngine.Json.Decode
import TemplateEngine.Json.Reader
import TemplateEngine.Json.Writer
import TemplateEngine.Time.Stamp

-- The records that a cache keeps about its programs, and their JSON forms.
namespace TemplateEngine

open Json (Document)

namespace Compile.Resolution

def encode (r : Resolution) : Document := .record
  [("name", .text r.name),
   ("from", (r.origin.map fun p => Document.text p.text).getD .null),
   ("resolved", .text r.resolved.text)]

def decode? (d : Document) : Option Resolution := do
  match ← d.fields? ["name", "from", "resolved"] 0 with
  | [some name, origin, some resolved] =>
    let name ← name.string?
    let resolved ← resolved.string?
    match origin with
    | none | some .null => return ⟨name, none, ⟨resolved⟩⟩
    | some origin => return ⟨name, some ⟨← origin.string?⟩, ⟨resolved⟩⟩
  | _ => none

end Compile.Resolution

namespace Cache

def paths? (d : Document) : Option (List Path) := d.texts?.map fun all => all.map (⟨·⟩)

def encodePaths (all : List Path) : Document := .texts (all.map Path.text)

-- What a program was compiled from, and when.
structure Metadata where
  source : Path
  dependencies : List Path
  compiledAt : Instant
deriving DecidableEq, Repr

namespace Metadata

def encode (m : Metadata) : Document := .record
  [("source", .text m.source.text),
   ("dependencies", encodePaths m.dependencies),
   ("compiled_at", .text m.compiledAt.stamp)]

def decode? (d : Document) : Option Metadata := do
  match ← d.fields? ["source", "dependencies", "compiled_at"] 0 with
  | [some source, some dependencies, some compiledAt] =>
    return ⟨⟨← source.string?⟩, ← paths? dependencies, ← Instant.ofStamp? (← compiledAt.string?)⟩
  | _ => none

def text (m : Metadata) : String := m.encode.toIndentedText

def ofText? (text : String) : Option Metadata := (Document.read? text).bind decode?

-- Whether a file is there and was not changed after the compilation.
def covers (m : Metadata) (h : Host) (p : Path) : Bool :=
  match h.changed p with
  | .ok t => t.atMost m.compiledAt
  | .error _ => false

def isFresh (m : Metadata) (h : Host) : Bool := (m.source :: m.dependencies).all (m.covers h)

end Metadata

-- What the last compilation of a source used, and how it found it.
structure Index where
  source : Path
  dependencies : List Path
  resolutions : List Compile.Resolution
deriving DecidableEq, Repr

namespace Index

def encode (i : Index) : Document := .record
  [("source", .text i.source.text),
   ("dependencies", encodePaths i.dependencies),
   ("resolutions", .array (i.resolutions.map Compile.Resolution.encode))]

def decode? (d : Document) : Option Index := do
  match ← d.fields? ["source", "dependencies", "resolutions"] 1 with
  | [some source, some dependencies, resolutions] =>
    let source ← source.string?
    let dependencies ← paths? dependencies
    match resolutions with
    | none => return ⟨⟨source⟩, dependencies, []⟩
    | some all => return ⟨⟨source⟩, dependencies, ← (← all.array?).mapM Compile.Resolution.decode?⟩
  | _ => none

def text (i : Index) : String := i.encode.toText

def ofText? (text : String) : Option Index := (Document.read? text).bind decode?

end Index

end Cache

end TemplateEngine
