import TemplateEngine.Text.CaseTable
import TemplateEngine.Text.Letter

-- Capital and small letters of whole texts. A character may become several characters, and
-- a sigma at the end of a word has a small form of its own.
namespace TemplateEngine.Text

def CaseRun.holds (run : CaseRun) (n : Nat) : Bool :=
  run.first ≤ n && n ≤ run.last && (n - run.first) % run.step == 0

def CaseRun.apply (run : CaseRun) (n : Nat) : Char := Char.ofNat ((n : Int) + run.shift).toNat

def mapCase (sequences : List (Nat × List Nat)) (runs : List CaseRun) (c : Char) : List Char :=
  match sequences.find? fun (n, _) => n == c.toNat with
  | some (_, codes) => codes.map Char.ofNat
  | none =>
    match runs.find? fun run => run.holds c.toNat with
    | some run => [run.apply c.toNat]
    | none => [c]

def capital (c : Char) : List Char :=
  if c.toNat < 128 then [c.toUpper] else mapCase upperSequences upperRuns c

def small (c : Char) : List Char :=
  if c.toNat < 128 then [c.toLower] else mapCase lowerSequences lowerRuns c

def isCased (c : Char) : Bool :=
  if c.toNat < 128 then c.isAlpha else inRanges casedRanges c.toNat

def isCaseIgnorable (c : Char) : Bool :=
  if c.toNat < 128 then c == '\'' || c == '.' || c == ':' || c == '^' || c.toNat == 0x60
  else inRanges caseIgnorableRanges c.toNat

-- Whether the first character that matters for case is cased.
def meetsCased (cs : List Char) : Bool :=
  match cs.dropWhile isCaseIgnorable with
  | c :: _ => isCased c
  | [] => false

def capitals (cs : List Char) : List Char := cs.flatMap capital

-- `before` holds the characters already passed, nearest first.
def smallsAfter (before : List Char) : List Char → List Char
  | [] => []
  | c :: cs =>
    let here :=
      if c.toNat = 0x3A3 then
        if meetsCased before && !meetsCased cs then [Char.ofNat 0x3C2] else [Char.ofNat 0x3C3]
      else small c
    here ++ smallsAfter (c :: before) cs

def smalls (cs : List Char) : List Char := smallsAfter [] cs

-- The first character in its capital form and every other one in its small form.
def capitalized : List Char → List Char
  | [] => []
  | c :: cs => capital c ++ cs.flatMap small

end TemplateEngine.Text
