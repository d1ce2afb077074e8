import TemplateEngine.Json.Document

-- The compact text of a document, and the indented one.
namespace TemplateEngine.Json

def hexDigit (n : Nat) : Char := if n < 10 then Char.ofNat (48 + n) else Char.ofNat (87 + n)

-- Quotes, backslashes and control characters are escaped, with short forms where there are any.
def escaped (c : Char) : List Char :=
  if c = '"' then ['\\', '"']
  else if c = '\\' then ['\\', '\\']
  else if c = '\n' then ['\\', 'n']
  else if c = '\r' then ['\\', 'r']
  else if c = '\t' then ['\\', 't']
  else if c = '\x08' then ['\\', 'b']
  else if c = '\x0c' then ['\\', 'f']
  else if c.toNat < 32 then ['\\', 'u', '0', '0', hexDigit (c.toNat / 16), hexDigit (c.toNat % 16)]
  else [c]

def quoted (s : String) : List Char := '"' :: (s.toList.flatMap escaped ++ ['"'])

def boolText (b : Bool) : List Char := if b then "true".toList else "false".toList

namespace Document

mutual

-- Leaves that denote nothing are written as null.
def write : Document → List Char
  | null => "null".toList
  | bool b => boolText b
  | number n => (n.map Number.text).getD "null".toList
  | string s => (s.map quoted).getD "null".toList
  | array [] => ['[', ']']
  | array (d :: ds) => '[' :: (write d ++ writeItems ds)
  | object [] => ['{', '}']
  | object ((name, d) :: ds) => '{' :: (quoted (name.getD "") ++ ':' :: (write d ++ writeMembers ds))

-- The items after the first one, and the closing bracket.
def writeItems : List Document → List Char
  | [] => [']']
  | d :: ds => ',' :: (write d ++ writeItems ds)

def writeMembers : List (Option String × Document) → List Char
  | [] => ['}']
  | (name, d) :: ds => ',' :: (quoted (name.getD "") ++ ':' :: (write d ++ writeMembers ds))

end

def margin (level : Nat) : List Char := '\n' :: List.replicate (2 * level) ' '

mutual

-- One item or member a line, two blanks further in for each level.
def indented (level : Nat) : Document → List Char
  | array (d :: ds) => '[' :: (margin (level + 1) ++ indented (level + 1) d ++ indentedItems level ds)
  | object ((name, d) :: ds) =>
    '{' :: (margin (level + 1) ++ quoted (name.getD "") ++ ':' :: ' ' :: indented (level + 1) d
      ++ indentedMembers level ds)
  | d => write d

def indentedItems (level : Nat) : List Document → List Char
  | [] => margin level ++ [']']
  | d :: ds => ',' :: (margin (level + 1) ++ indented (level + 1) d ++ indentedItems level ds)

def indentedMembers (level : Nat) : List (Option String × Document) → List Char
  | [] => margin level ++ ['}']
  | (name, d) :: ds =>
    ',' :: (margin (level + 1) ++ quoted (name.getD "") ++ ':' :: ' ' :: indented (level + 1) d
      ++ indentedMembers level ds)

end

def toText (d : Document) : String := String.ofList d.write

def toIndentedText (d : Document) : String := String.ofList (d.indented 0)

end Document

end TemplateEngine.Json

namespace TemplateEngine.Value

-- Strings stand for themselves, null for nothing, and all else for its JSON text.
def text : Value → String
  | string s => s
  | null => ""
  | v => (Json.Document.ofValue v).toText

end TemplateEngine.Value
