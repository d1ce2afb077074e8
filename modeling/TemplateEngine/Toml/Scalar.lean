import TemplateEngine.Decimal.Reading
import TemplateEngine.Decimal.Dyadic
import TemplateEngine.Json.Reader
import TemplateEngine.Time.Stamp

-- The forms of numbers, dates and times.
namespace TemplateEngine.Toml

-- Digits with single underscores between them.
def grouped (digit : Char → Bool) : List Char → Bool
  | [] => false
  | [c] => digit c
  | c :: '_' :: rest => digit c && grouped digit rest
  | c :: rest => digit c && grouped digit rest

def isHexDigit (c : Char) : Bool := c.isDigit || ('a' ≤ c && c ≤ 'f') || ('A' ≤ c && c ≤ 'F')

def isOctalDigit (c : Char) : Bool := '0' ≤ c && c ≤ '7'

def isBinaryDigit (c : Char) : Bool := c == '0' || c == '1'

def unsigned (cs : List Char) : List Char :=
  match cs with
  | '+' :: rest | '-' :: rest => rest
  | rest => rest

-- A number in tens without a zero in front.
def isDecimal (cs : List Char) : Bool := grouped Char.isDigit cs && (cs.head? != some '0' || cs.length == 1)

def inBase (base : Nat) (cs : List Char) : Nat :=
  (cs.filterMap Json.hexValue?).foldl (fun n d => base * n + d) 0

-- Integers in tens may have a sign; those in sixteens, eights and twos have a mark instead.
def integer? (cs : List Char) : Option Int :=
  match cs with
  | '0' :: 'x' :: rest => if grouped isHexDigit rest then some (inBase 16 rest) else none
  | '0' :: 'o' :: rest => if grouped isOctalDigit rest then some (inBase 8 rest) else none
  | '0' :: 'b' :: rest => if grouped isBinaryDigit rest then some (inBase 2 rest) else none
  | _ =>
    if isDecimal (unsigned cs) then
      let size : Int := inBase 10 (unsigned cs)
      some (if cs.head? == some '-' then -size else size)
    else none

-- Integers have at most 128 bits, with or without a sign.
def isInteger (cs : List Char) : Bool :=
  (integer? cs).any fun n =>
    -(Decimal.twoTo 127 : Int) ≤ n && n < (Decimal.twoTo 128 : Int)

-- A decimal number with a fraction, an exponent or both.
def isDecimalFraction (cs : List Char) : Bool :=
  let isMark (c : Char) : Bool := c == 'e' || c == 'E'
  let significand := cs.takeWhile (!isMark ·)
  let whole := significand.takeWhile (· != '.')
  let fraction := significand.drop whole.length
  let exponent := cs.drop significand.length
  isDecimal whole
    && (!fraction.isEmpty || !exponent.isEmpty)
    && (fraction.isEmpty || grouped Char.isDigit fraction.tail)
    && (exponent.isEmpty || grouped Char.isDigit (unsigned exponent.tail))

-- Real numbers that a double can hold, infinity, and what is no number.
def isReal (cs : List Char) : Bool :=
  let size := unsigned cs
  size == "inf".toList || size == "nan".toList
    || (isDecimalFraction size
      && (Decimal.read (size.filter (· != '_'))).any Decimal.isFinite)

-- What follows two digits and a mark at the front of a text.
def takePair (mark : Char) (cs : List Char) : Option (Nat × List Char) :=
  match Instant.twoDigits cs with
  | some (n, c :: rest) => if c = mark then some (n, rest) else none
  | _ => none

-- A day at the front of a text, and what follows.
def takeDay (cs : List Char) : Option (List Char) := do
  let (century, rest) ← Instant.twoDigits cs
  let (year, rest) ← takePair '-' rest
  let (month, rest) ← takePair '-' rest
  let (day, rest) ← Instant.twoDigits rest
  if (⟨((100 * century + year : Nat) : Int), month, day⟩ : Day).isValid then return rest else none

-- A time of day at the front of a text, with or without seconds.
def takeTime (cs : List Char) : Option (List Char) := do
  let (hour, rest) ← takePair ':' cs
  let (minute, rest) ← Instant.twoDigits rest
  if 24 ≤ hour || 60 ≤ minute then none
  match rest with
  | ':' :: rest =>
    let (second, rest) ← Instant.twoDigits rest
    let (_, rest) ← Instant.takeFraction rest
    if 60 < second then none else return rest
  | rest => return rest

def isOffset (cs : List Char) : Bool :=
  match cs with
  | ['Z'] | ['z'] => true
  | ['+', a, b, ':', c, d] | ['-', a, b, ':', c, d] =>
    match Instant.twoDigits [a, b], Instant.twoDigits [c, d] with
    | some (hours, _), some (minutes, _) => hours < 24 && minutes < 60
    | _, _ => false
  | _ => false

-- A day, a time, or both; with both there may be an offset.
def isDate (cs : List Char) : Bool :=
  match takeDay cs with
  | none => takeTime cs == some []
  | some [] => true
  | some (c :: rest) =>
    (c == 'T' || c == 't' || c == ' ')
      && (takeTime rest).any fun after => after.isEmpty || isOffset after

def isPlain (cs : List Char) : Bool := isInteger cs || isReal cs || isDate cs

end TemplateEngine.Toml
