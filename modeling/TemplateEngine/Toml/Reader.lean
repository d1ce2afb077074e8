import TemplateEngine.Toml.Scalar
import TemplateEngine.Toml.Table
import TemplateEngine.Toml.Text

-- The reader of settings text: lines with a header in brackets, or with a key and a value.
namespace TemplateEngine.Toml

def endsPlain (c : Char) : Bool :=
  isBlank c || c == '\n' || c == '\r' || c == ',' || c == ']' || c == '}' || c == '#'

def plainText (cs : List Char) : List Char := cs.takeWhile (!endsPlain ·)

-- The length of a number, date or time at the front of a text. A blank may stand between a day
-- and a time.
def plainLength (cs : List Char) : Nat :=
  let front := plainText cs
  match cs.drop front.length with
  | ' ' :: rest =>
    let time := plainText rest
    if takeDay front == some [] && (time.head?).any Char.isDigit then front.length + 1 + time.length
    else front.length
  | _ => front.length

def plain? (cs : List Char) : Option Value :=
  if cs == "true".toList then some (.bool true)
  else if cs == "false".toList then some (.bool false)
  else if isPlain cs then some (.plain (String.ofList cs))
  else none

def first (cs : List Char) : Option (Char × Shorter cs) :=
  match cs with
  | [] => none
  | c :: _ => some (c, .tail)

-- The first character after a gap and what follows it.
def next (cs : List Char) : Option (Char × Shorter cs) :=
  (first (skipGap cs).val).map fun (c, rest) => (c, (skipGap cs).transShorter rest)

def readPlain (cs : List Char) : Option (Value × Shorter cs) :=
  if h : 0 < plainLength cs ∧ 0 < cs.length then
    (plain? (cs.take (plainLength cs))).map fun v =>
      (v, ⟨cs.drop (plainLength cs), by simp only [List.length_drop]; omega⟩)
  else none

-- What follows an equals sign and the blank space around it.
def readEquals (skip : (cs : List Char) → NotLonger cs) (cs : List Char) : Option (Shorter cs) :=
  let space := skip cs
  match first space.val with
  | some ('=', rest) =>
    some (space.transShorter (rest.trans (skip rest.val)))
  | _ => none

mutual

def readValue (cs : List Char) : Option (Value × Shorter cs) :=
  match first cs with
  | none => none
  | some (c, rest) =>
    have hrest := rest.property
    if c = '[' then
      (readItems rest.val).map fun (items, last) => (.array items, last.weaken (Nat.le_of_lt hrest))
    else if c = '\x7b' then
      (readPairs [] rest.val).map fun (fields, last) =>
        (.table .braces fields, last.weaken (Nat.le_of_lt hrest))
    else if c = '"' || c = '\'' then (readString true cs).map fun (s, last) => (.string s, last)
    else readPlain cs
termination_by 2 * cs.length
decreasing_by all_goals omega

-- The items of an array up to the closing bracket. A comma may follow the last one.
def readItems (cs : List Char) : Option (List Value × Shorter cs) :=
  match next cs with
  | some (']', rest) => some ([], rest)
  | _ =>
    have := (skipGap cs).property
    match readValue (skipGap cs).val with
    | none => none
    | some (v, after) =>
      have := after.property
      match next after.val with
      | some (']', rest) => some ([v], ⟨rest.val, by have := rest.property; omega⟩)
      | some (',', rest) =>
        have := rest.property
        (readItems rest.val).map fun (others, last) => (v :: others, last.weaken (by omega))
      | _ => none
termination_by 2 * cs.length + 1
decreasing_by all_goals omega

-- The fields between braces up to the closing one. A comma may follow the last field, and lines
-- may break anywhere but inside a key.
def readPairs (fields : Fields) (cs : List Char) : Option (Fields × Shorter cs) :=
  match next cs with
  | some ('\x7d', rest) => some (fields, rest)
  | _ =>
    have := (skipGap cs).property
    match readKey (skipGap cs).val with
    | none => none
    | some ((path, name), afterKey) =>
      have := afterKey.property
      match readEquals skipGap afterKey.val with
      | none => none
      | some start =>
        have := start.property
        match readValue start.val with
        | none => none
        | some (v, after) =>
          have := after.property
          match assign path name v .braces fields with
          | none => none
          | some fields =>
            match next after.val with
            | some ('\x7d', rest) => some (fields, ⟨rest.val, by have := rest.property; omega⟩)
            | some (',', rest) =>
              have := rest.property
              (readPairs fields rest.val).map fun (all, last) => (all, last.weaken (by omega))
            | _ => none
termination_by 2 * cs.length + 1
decreasing_by all_goals omega

end

def readClosing (brackets : List Char) (cs : List Char) : Option (NotLonger cs) :=
  let blank := skipBlanks cs
  if brackets.isPrefixOf blank.val then
    some (blank.trans (.drop brackets.length blank.val))
  else none

-- A header, from after its opening brackets.
def readHeader (start : String → Fields → Option Fields) (brackets : List Char) (d : Draft)
    (cs : List Char) : Option (Draft × NotLonger cs) :=
  let blank := skipBlanks cs
  match readKey blank.val with
  | none => none
  | some ((path, name), after) => do
    let rest ← readClosing brackets after.val
    let d ← d.enter start path name
    return (d, blank.trans (after.trans rest).loosen)

def readField (d : Draft) (cs : List Char) : Option (Draft × Shorter cs) :=
  match readKey cs with
  | none => none
  | some ((path, name), after) => do
    let start ← readEquals skipBlanks after.val
    let (v, rest) ← readValue start.val
    if Value.maxDepth < v.depth then none
    let d ← d.set path name v
    return (d, after.trans (start.trans rest.loosen).loosen)

def readLine (d : Draft) (cs : List Char) : Option (Draft × Shorter cs) :=
  match cs with
  | '[' :: '[' :: rest =>
    (readHeader startItem [']', ']'] d rest).map fun (d, last) =>
      (d, last.cons.cons)
  | '[' :: rest =>
    (readHeader startTable [']'] d rest).map fun (d, last) => (d, last.cons)
  | other => readField d other

def readLines (d : Draft) (cs : List Char) : Option Draft :=
  if (skipGap cs).val.isEmpty then some d
  else
    have := (skipGap cs).property
    match readLine d (skipGap cs).val with
    | none => none
    | some (d, after) =>
      have := after.property
      match endLine after.val with
      | none => none
      | some rest =>
        have := rest.property
        readLines d rest.val
termination_by cs.length
decreasing_by omega

def byteOrderMark : Char := '\ufeff'

-- The fields of a text; there are none unless the whole text is well-formed.
def read? (text : String) : Option Fields :=
  let cs :=
    match text.toList with
    | c :: rest => if c = byteOrderMark then rest else c :: rest
    | [] => []
  (readLines .empty cs).map Draft.fields

end TemplateEngine.Toml
