import TemplateEngine.Decimal.Reading
import TemplateEngine.Json.Document
import TemplateEngine.Remainder

-- The reader of JSON text. Every function returns what it read and the text that follows, which
-- is shorter than the text it was given.
namespace TemplateEngine.Json

def isSpace (c : Char) : Bool := c == ' ' || c == '\n' || c == '\t' || c == '\r'

-- Powers of ten that doubles hold or round to.
def powerOfTen (n : Nat) : Float := Float.ofScientific 1 false n

def shrink (x : Float) (n : Nat) : Float :=
  if n ≤ 308 then x / powerOfTen n
  else
    let y := x / powerOfTen 308
    if y == 0.0 then y else shrink y (n - 308)
termination_by n

-- A significand of at most 64 bits scaled by a power of ten, rounding after each step. There is
-- no double where the result overflows.
def scaled? (significand : Nat) (exponent : Int) : Option Float :=
  let x := significand.toUInt64.toFloat
  if significand = 0 then some x
  else if 0 ≤ exponent then
    if 308 < exponent then none
    else
      let y := x * powerOfTen exponent.toNat
      if Decimal.isFinite y then some y else none
  else some (shrink x exponent.natAbs)

-- The first number of more than 64 bits.
def wordLimit : Nat := 18446744073709551616

-- Takes digits into the significand while it has at most 64 bits, and counts the digits left.
def significand (start : Nat) (digits : List Char) : Nat × Nat :=
  match digits with
  | [] => (start, 0)
  | d :: ds =>
    let next := 10 * start + Decimal.digitValue d
    if next < wordLimit then significand next ds else (start, ds.length + 1)

-- The number written by these parts. Integers within 64 bits stay integers.
def numberOf (negative : Bool) (whole fraction : List Char) (point : Bool) (exponent : Option Int) :
    Option Number :=
  let (start, dropped) := significand 0 whole
  if dropped = 0 && !point && exponent.isNone then
    if !negative then some (.integer start)
    else if start = 0 || wordLimit / 2 < start then some (.double (-start.toUInt64.toFloat))
    else some (.integer (-(start : Int)))
  else
    let (all, ignored) := if dropped = 0 then significand start fraction
      else match fraction with
        | [] => (start, 0)
        | _ => significand start fraction
    let shift : Int := (dropped : Int) - ((fraction.length - ignored : Nat) : Int)
    let scaled := scaled? all (shift + exponent.getD 0)
    scaled.map fun x => .double (if negative then -x else x)

def afterDigits (cs : List Char) : NotLonger cs := .dropWhile Char.isDigit cs

-- A point and the digits after it, if there is one. A point without digits is an error.
def readFraction (cs : List Char) : Option (Option (List Char) × NotLonger cs) :=
  match cs with
  | '.' :: more =>
    let digits := more.takeWhile Char.isDigit
    if digits.isEmpty then none
    else some (some digits, (afterDigits more).cons.loosen)
  | _ => some (none, .all)

def readSign (cs : List Char) : Bool × NotLonger cs :=
  match cs with
  | '-' :: _ => (true, .tail)
  | '+' :: _ => (false, .tail)
  | _ => (false, .all)

-- An exponent mark and its digits, if there is one. A mark without digits is an error.
def readExponent (cs : List Char) : Option (Option Int × NotLonger cs) :=
  match cs with
  | [] => some (none, .all)
  | c :: more =>
    if c = 'e' || c = 'E' then
      let (negative, signed) := readSign more
      let digits := signed.val.takeWhile Char.isDigit
      let size : Int := Decimal.ofDigits digits
      if digits.isEmpty then none
      else some (some (if negative then -size else size),
        (signed.trans (afterDigits signed.val)).cons.loosen)
    else some (none, .all)

-- A number whose first digit is `c`. No digit follows a leading zero.
def readNumber (negative : Bool) (c : Char) (cs : List Char) : Option (Document × NotLonger cs) :=
  let others := cs.takeWhile Char.isDigit
  if !c.isDigit || (c = '0' && !others.isEmpty) then none
  else
    match readFraction (afterDigits cs).val with
    | none => none
    | some (fraction, afterFraction) =>
      (readExponent afterFraction.val).map fun (exponent, rest) =>
        (.number (numberOf negative (c :: others) (fraction.getD []) fraction.isSome exponent),
          (afterDigits cs).trans (afterFraction.trans rest))

def hexValue? (c : Char) : Option Nat :=
  if c.isDigit then some (c.toNat - 48)
  else if 'a' ≤ c && c ≤ 'f' then some (c.toNat - 87)
  else if 'A' ≤ c && c ≤ 'F' then some (c.toNat - 55)
  else none

def unit? (a b c d : Char) : Option Nat := do
  return 4096 * (← hexValue? a) + 256 * (← hexValue? b) + 16 * (← hexValue? c) + (← hexValue? d)

def isHighSurrogate (n : Nat) : Bool := 0xD800 ≤ n && n < 0xDC00

def isLowSurrogate (n : Nat) : Bool := 0xDC00 ≤ n && n < 0xE000

def shortEscape? (c : Char) : Option Char :=
  if c = '"' || c = '\\' || c = '/' then some c
  else if c = 'n' then some '\n'
  else if c = 't' then some '\t'
  else if c = 'r' then some '\r'
  else if c = 'b' then some '\x08'
  else if c = 'f' then some '\x0c'
  else none

-- The unit of a second escape that completes a surrogate pair.
def lowUnit? (cs : List Char) : Option Nat :=
  match cs with
  | '\\' :: 'u' :: a :: b :: c :: d :: _ => (unit? a b c d).filter isLowSurrogate
  | _ => none

-- What follows the backslash of an escape. The character is `none` for half of a surrogate pair.
def readEscape (cs : List Char) : Option (Option Char × NotLonger cs) :=
  match cs with
  | 'u' :: a :: b :: c :: d :: rest =>
    (unit? a b c d).map fun unit =>
      match isHighSurrogate unit, lowUnit? rest with
      | true, some low =>
        (some (Char.ofNat (0x10000 + 1024 * (unit - 0xD800) + (low - 0xDC00))),
          (NotLonger.drop 6 rest).cons.cons.cons.cons.cons.loosen)
      | true, none => (none, Shorter.tail.cons.cons.cons.cons.loosen)
      | false, _ =>
        (if isLowSurrogate unit then none else some (Char.ofNat unit),
          Shorter.tail.cons.cons.cons.cons.loosen)
  | c :: _ => (shortEscape? c).map fun char => (some char, .tail)
  | [] => none

def consAll (char : Option Char) (content : Option (List Char)) : Option (List Char) :=
  match char, content with
  | some c, some cs => some (c :: cs)
  | _, _ => none

-- The rest of a string after its opening quote. The content is `none` after half of a pair.
def readString (cs : List Char) : Option (Option (List Char) × Shorter cs) :=
  match cs with
  | [] => none
  | c :: rest =>
    if c = '"' then some (some [], .tail)
    else if c = '\\' then
      match readEscape rest with
      | none => none
      | some (char, after) =>
        have := after.property
        (readString after.val).map fun (content, last) =>
          (consAll char content, (after.trans last.loosen).cons)
    else if c.toNat < 32 then none
    else
      (readString rest).map fun (content, last) =>
        (consAll (some c) content, last.cons)
termination_by cs.length
decreasing_by all_goals (simp only [List.length_cons]; omega)

def readWord (word : List Char) (d : Document) (cs : List Char) : Option (Document × NotLonger cs) :=
  if word.isPrefixOf cs then some (d, .drop word.length cs) else none

def first (cs : List Char) : Option (Char × Shorter cs) :=
  match cs with
  | [] => none
  | c :: _ => some (c, .tail)

-- The first character that is no space, and what follows it.
def next (cs : List Char) : Option (Char × Shorter cs) :=
  match cs with
  | [] => none
  | c :: rest =>
    if isSpace c then (next rest).map fun (d, after) => (d, after.cons)
    else some (c, .tail)

mutual

def readDocument (cs : List Char) : Option (Document × Shorter cs) :=
  match next cs with
  | none => none
  | some (c, rest) =>
    have hrest := rest.property
    if c = '"' then
      (readString rest.val).map fun (content, after) =>
        (.string (content.map String.ofList), after.weaken (Nat.le_of_lt hrest))
    else if c = '[' then
      match next rest.val with
      | some (']', after) => some (.array [], after.weaken (Nat.le_of_lt hrest))
      | _ =>
        match readDocument rest.val with
        | none => none
        | some (first, after) =>
          have hafter := after.property
          (readItems after.val).map fun (others, last) =>
            (.array (first :: others), last.weaken (by omega))
    else if c = '{' then
      match next rest.val with
      | some ('}', after) => some (.object [], after.weaken (Nat.le_of_lt hrest))
      | _ =>
        match readMember rest.val with
        | none => none
        | some (first, after) =>
          have hafter := after.property
          (readMembers after.val).map fun (others, last) =>
            (.object (first :: others), last.weaken (by omega))
    else if c = 't' then
      (readWord "rue".toList (.bool true) rest.val).map fun (d, after) => (d, after.shorter hrest)
    else if c = 'f' then
      (readWord "alse".toList (.bool false) rest.val).map fun (d, after) => (d, after.shorter hrest)
    else if c = 'n' then
      (readWord "ull".toList .null rest.val).map fun (d, after) => (d, after.shorter hrest)
    else if c = '-' then
      match first rest.val with
      | none => none
      | some (digit, more) =>
        have hmore := more.property
        (readNumber true digit more.val).map fun (d, after) => (d, after.shorter (by omega))
    else
      (readNumber false c rest.val).map fun (d, after) => (d, after.shorter hrest)
termination_by 2 * cs.length + 1
decreasing_by all_goals omega

def readItems (cs : List Char) : Option (List Document × Shorter cs) :=
  match next cs with
  | none => none
  | some (c, rest) =>
    have hrest := rest.property
    if c = ']' then some ([], rest)
    else if c = ',' then
      match readDocument rest.val with
      | none => none
      | some (item, after) =>
        have hafter := after.property
        (readItems after.val).map fun (others, last) => (item :: others, last.weaken (by omega))
    else none
termination_by 2 * cs.length
decreasing_by all_goals omega

def readMember (cs : List Char) : Option ((Option String × Document) × Shorter cs) :=
  match next cs with
  | none => none
  | some (c, rest) =>
    have hrest := rest.property
    if c = '"' then
      match readString rest.val with
      | none => none
      | some (name, after) =>
        have hafter := after.property
        match next after.val with
        | none => none
        | some (colon, more) =>
          have hmore := more.property
          if colon = ':' then
            (readDocument more.val).map fun (d, last) =>
              ((name.map String.ofList, d), last.weaken (by omega))
          else none
    else none
termination_by 2 * cs.length
decreasing_by all_goals omega

def readMembers (cs : List Char) : Option (List (Option String × Document) × Shorter cs) :=
  match next cs with
  | none => none
  | some (c, rest) =>
    have hrest := rest.property
    if c = '}' then some ([], rest)
    else if c = ',' then
      match readMember rest.val with
      | none => none
      | some (first, after) =>
        have hafter := after.property
        (readMembers after.val).map fun (others, last) => (first :: others, last.weaken (by omega))
    else none
termination_by 2 * cs.length
decreasing_by all_goals omega

end

namespace Document

def read? (s : String) : Option Document :=
  match readDocument s.toList with
  | some (d, rest) => if rest.val.all isSpace then some d else none
  | none => none

end Document

def readValue? (s : String) : Option Value := (Document.read? s).bind Document.value?

end TemplateEngine.Json
