-- Decimal text read as doubles.
namespace TemplateEngine.Decimal

def digitValue (c : Char) : Nat := c.toNat - '0'.toNat

def ofDigits (cs : List Char) : Nat := cs.foldl (fun n c => 10 * n + digitValue c) 0

-- The double nearest to digits * 10 ^ exponent. Magnitudes far outside the range of doubles are
-- settled by the position of the first digit.
def nearest (digits : Nat) (exponent : Int) : Float :=
  if digits = 0 then 0.0
  else
    let leading : Int := exponent + (Nat.log2 digits * 30103 / 100000 : Nat)
    if 400 < leading then 1.0 / 0.0
    else if leading < -400 then 0.0
    else Float.ofScientific digits (exponent < 0) exponent.natAbs

def sameLetters (word cs : List Char) : Bool := cs.map Char.toLower == word

-- An optional sign and digits, all of the text.
def readExponent (cs : List Char) : Option Int :=
  let (negative, digits) :=
    match cs with
    | '-' :: rest => (true, rest)
    | '+' :: rest => (false, rest)
    | rest => (false, rest)
  if digits.isEmpty || !digits.all Char.isDigit then none
  else some (if negative then -(ofDigits digits : Int) else (ofDigits digits : Int))

-- Digits with an optional point among them or beside them, then an optional exponent.
def readUnsigned (cs : List Char) : Option Float :=
  let whole := cs.takeWhile Char.isDigit
  let afterWhole := cs.dropWhile Char.isDigit
  let (fraction, rest) :=
    match afterWhole with
    | '.' :: more => (more.takeWhile Char.isDigit, more.dropWhile Char.isDigit)
    | _ => ([], afterWhole)
  if whole.isEmpty && fraction.isEmpty then none
  else
    let digits := ofDigits (whole ++ fraction)
    let shift : Int := -(fraction.length : Int)
    match rest with
    | [] => some (nearest digits shift)
    | 'e' :: exponent | 'E' :: exponent =>
      (readExponent exponent).map fun e => nearest digits (shift + e)
    | _ => none

-- A whole text as a double: digits as above, or infinity or not-a-number by name in either case,
-- after an optional sign.
def read (cs : List Char) : Option Float :=
  let (negative, body) :=
    match cs with
    | '-' :: rest => (true, rest)
    | '+' :: rest => (false, rest)
    | rest => (false, rest)
  let magnitude :=
    if sameLetters "inf".toList body || sameLetters "infinity".toList body then some (1.0 / 0.0)
    else if sameLetters "nan".toList body then some (0.0 / 0.0)
    else readUnsigned body
  magnitude.map fun x => if negative then -x else x

end TemplateEngine.Decimal
