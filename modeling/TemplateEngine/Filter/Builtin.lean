import TemplateEngine.Filter.Registry
import TemplateEngine.Html
import TemplateEngine.Json.Writer
import TemplateEngine.Text.Blank
import TemplateEngine.Text.Case

-- The filters that every template can use.
namespace TemplateEngine.Filter

def onText (f : List Char → List Char) (v : Value) : Except String Value :=
  .ok (.string (String.ofList (f v.text.toList)))

-- The pieces of a text between single blanks, each with its first letter as a capital.
def title (cs : List Char) : List Char :=
  [' '].intercalate ((cs.splitOn ' ').map Text.capitalized)

def size : Value → Except String Value
  | .array items => .ok (.natural items.length)
  | .object fields => .ok (.natural fields.length)
  | .null => .ok (.natural 0)
  | v => .ok (.natural v.text.length)

def reverse : Value → Except String Value
  | .array items => .ok (.array items.reverse)
  | .object _ => .error "cannot reverse an object"
  | v => onText List.reverse v

-- One end of a list or of a text, or null where it is empty.
def endOf (item : List Value → Option Value) (char : List Char → Option Char) : Value → Except String Value
  | .array items => .ok ((item items).getD .null)
  | .string s => .ok (((char s.toList).map fun c => .string (String.ofList [c])).getD .null)
  | .null => .ok .null
  | v => .error s!"expected a string or array, found {v.kind}"

def toJson (v : Value) : Except String Value := .ok (.string (Json.Document.ofValue v).toText)

def builtins : List (String × (Value → Except String Value)) := [
  ("escape", onText Html.escape),
  ("e", onText Html.escape),
  ("upper", onText Text.capitals),
  ("lower", onText Text.smalls),
  ("capitalize", onText Text.capitalized),
  ("title", onText title),
  ("trim", onText Text.trim),
  ("length", size),
  ("reverse", reverse),
  ("first", endOf List.head? List.head?),
  ("last", endOf List.getLast? List.getLast?),
  ("json", toJson),
  ("nl2br", onText Html.breakLines),
  ("striptags", onText Html.stripTags)]

end TemplateEngine.Filter

namespace TemplateEngine.Registry

def standard : Registry := basic.addAll Filter.builtins

end TemplateEngine.Registry
