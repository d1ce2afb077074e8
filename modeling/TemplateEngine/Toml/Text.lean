import TemplateEngine.Json.Reader
import TemplateEngine.Remainder

-- Blanks, comments, strings and keys. Readers return what follows, which shows that they end.
namespace TemplateEngine.Toml

def isBlank (c : Char) : Bool := c == ' ' || c == '\t'

-- Characters that may stand in comments and strings as they are.
def isVisible (c : Char) : Bool := c == '\t' || (32 ≤ c.toNat && c.toNat != 127)

def skipBlanks (cs : List Char) : NotLonger cs := .dropWhile isBlank cs

def readBreak (cs : List Char) : Option (List Char × Shorter cs) :=
  match cs with
  | '\n' :: _ => some (['\n'], .tail)
  | '\r' :: '\n' :: _ => some (['\r', '\n'], Shorter.tail.cons)
  | _ => none

def newline? (cs : List Char) : Option (Shorter cs) := (readBreak cs).map (·.2)

def skipComment (cs : List Char) : NotLonger cs :=
  match cs with
  | '#' :: rest => (NotLonger.dropWhile isVisible rest).cons.loosen
  | _ => .all

-- What follows blanks, comments and line breaks.
def skipGap (cs : List Char) : NotLonger cs :=
  let comment := (skipBlanks cs).trans (skipComment (skipBlanks cs).val)
  match newline? comment.val with
  | none => comment
  | some rest =>
    have := rest.property
    have := comment.property
    comment.trans (rest.trans (skipGap rest.val)).loosen
termination_by cs.length
decreasing_by omega

-- What follows blanks and line breaks.
def skipBreaks (cs : List Char) : NotLonger cs :=
  let blank := skipBlanks cs
  match newline? blank.val with
  | none => blank
  | some rest =>
    have := rest.property
    have := blank.property
    blank.trans (rest.trans (skipBreaks rest.val)).loosen
termination_by cs.length
decreasing_by omega

-- What follows the rest of a line that holds nothing but blanks and a comment.
def endLine (cs : List Char) : Option (NotLonger cs) :=
  let comment := (skipBlanks cs).trans (skipComment (skipBlanks cs).val)
  if comment.val.isEmpty then some comment
  else (newline? comment.val).map fun rest => comment.trans rest.loosen

-- How a string is quoted. Long strings stand between triple quotes and may hold line breaks;
-- only double quotes allow escapes.
structure Quoting where
  mark : Char
  long : Bool

def Quoting.escapes (q : Quoting) : Bool := q.mark == '"'

-- What follows the quotes that end a string. Long strings may have two more quotes just before
-- those, which belong to the content.
def closing? (q : Quoting) (cs : List Char) : Option (List Char × Shorter cs) :=
  match cs with
  | [] => none
  | c :: rest =>
    let others := (rest.takeWhile (· == q.mark)).length
    if c != q.mark then none
    else if !q.long then some ([], .tail)
    else if others < 2 then none
    else
      let inside := min (others - 2) 2
      some (List.replicate inside q.mark, (NotLonger.drop (inside + 2) rest).cons)

def charOf? (digits : List Char) : Option Char := do
  let values ← digits.mapM Json.hexValue?
  let code := values.foldl (fun n v => 16 * n + v) 0
  if code < 0xD800 || (0xE000 ≤ code && code < 0x110000) then return Char.ofNat code else none

def shortEscape? (c : Char) : Option Char :=
  match c with
  | '"' | '\\' => some c
  | 'b' => some '\x08'
  | 't' => some '\t'
  | 'n' => some '\n'
  | 'f' => some '\x0c'
  | 'r' => some '\r'
  | 'e' => some '\x1b'
  | _ => none

def codeLength? (c : Char) : Option Nat :=
  match c with
  | 'x' => some 2
  | 'u' => some 4
  | 'U' => some 8
  | _ => none

-- What follows the backslash of an escape. In long strings a backslash at the end of a line
-- stands for nothing and takes the blank space after it along.
def readEscape (q : Quoting) (cs : List Char) : Option (List Char × NotLonger cs) :=
  match cs with
  | [] => none
  | c :: rest =>
    match shortEscape? c, codeLength? c with
    | some char, _ => some ([char], .tail)
    | none, some n =>
      if (rest.take n).length = n then
        (charOf? (rest.take n)).map fun char => ([char], (NotLonger.drop n rest).cons.loosen)
      else none
    | none, none =>
      if q.long && (newline? (skipBlanks (c :: rest)).val).isSome then some ([], skipBreaks (c :: rest))
      else none

def readPiece (q : Quoting) (cs : List Char) : Option (List Char × Shorter cs) :=
  match cs with
  | [] => none
  | c :: rest =>
    if c = '\\' && q.escapes then
      (readEscape q rest).map fun (piece, after) => (piece, after.cons)
    else if isVisible c then some ([c], .tail)
    else if q.long then readBreak (c :: rest)
    else none

def readContent (q : Quoting) (cs : List Char) : Option (List Char × Shorter cs) :=
  match closing? q cs with
  | some done => some done
  | none =>
    match readPiece q cs with
    | none => none
    | some (piece, after) =>
      have := after.property
      (readContent q after.val).map fun (content, last) => (piece ++ content, after.trans last.loosen)
termination_by cs.length
decreasing_by omega

-- A string between single quotes or double quotes. A line break right after the opening quotes
-- of a long string does not count.
def readString (long : Bool) (cs : List Char) : Option (String × Shorter cs) :=
  match cs with
  | [] => none
  | mark :: rest =>
    if mark != '"' && mark != '\'' then none
    else if long && [mark, mark].isPrefixOf rest then
      let opened := NotLonger.drop 2 rest
      let body :=
        match newline? opened.val with
        | some after => opened.trans after.loosen
        | none => opened
      (readContent ⟨mark, true⟩ body.val).map fun (content, last) =>
        (String.ofList content, (body.trans last.loosen).cons)
    else
      (readContent ⟨mark, false⟩ rest).map fun (content, last) =>
        (String.ofList content, last.cons)

def isBare (c : Char) : Bool := c.isAlphanum || c == '_' || c == '-'

-- A part of a key: a word, or a string on one line.
def readName (cs : List Char) : Option (String × Shorter cs) :=
  match cs with
  | [] => none
  | c :: rest =>
    if isBare c then
      some (String.ofList (c :: rest.takeWhile isBare), (NotLonger.dropWhile isBare rest).cons)
    else readString false (c :: rest)

-- Names with points between them. The names before the last one come first.
def readNames (cs : List Char) : Option ((List String × String) × Shorter cs) :=
  match readName cs with
  | none => none
  | some (name, after) =>
    have hafter := after.property
    have hblank := (skipBlanks after.val).property
    match h : (skipBlanks after.val).val with
    | '.' :: rest =>
      have hrest : rest.length < (skipBlanks after.val).val.length := by simp [h]
      have hnext := (skipBlanks rest).property
      (readNames (skipBlanks rest).val).map fun ((path, last), others) =>
        ((name :: path, last), others.weaken (by omega))
    | _ => some (([], name), ⟨(skipBlanks after.val).val, by omega⟩)
termination_by cs.length
decreasing_by omega

def maxNames : Nat := 80

-- A key and the blanks after it.
def readKey (cs : List Char) : Option ((List String × String) × Shorter cs) :=
  (readNames cs).filter fun ((path, _), _) => path.length < maxNames

end TemplateEngine.Toml
