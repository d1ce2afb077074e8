import TemplateEngine.Text.LetterTable

-- Letters, digits and the names built from them.
namespace TemplateEngine.Text

def inRanges (ranges : List (Nat × Nat)) (n : Nat) : Bool :=
  ranges.any fun (first, last) => first ≤ n && n ≤ last

def isLetter (c : Char) : Bool :=
  if c.toNat < 128 then c.isAlpha else inRanges alphabeticRanges c.toNat

def isNumeral (c : Char) : Bool :=
  if c.toNat < 128 then c.isDigit else inRanges numericRanges c.toNat

def isLetterOrNumeral (c : Char) : Bool := isLetter c || isNumeral c

def startsName (c : Char) : Bool := isLetter c || c == '_'

def continuesName (c : Char) : Bool := isLetterOrNumeral c || c == '_'

-- A name starts with a letter or an underscore and goes on with letters, numerals and underscores.
def isName : List Char → Bool
  | [] => false
  | c :: cs => startsName c && cs.all continuesName

-- A label is a name that may also hold hyphens after its first character.
def isLabel : List Char → Bool
  | [] => false
  | c :: cs => startsName c && cs.all fun d => continuesName d || d == '-'

end TemplateEngine.Text
