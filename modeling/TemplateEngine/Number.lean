import TemplateEngine.Decimal.Shortest

-- Numbers of template data: integers, and doubles beside them. An integer and a double are
-- different numbers even when they compare equal.
namespace TemplateEngine

inductive Number where
  | integer (n : Int)
  | double (x : Float)

namespace Number

def toFloat : Number → Float
  | integer n => Float.ofInt n
  | double x => x

def same : Number → Number → Bool
  | integer m, integer n => m == n
  | double x, double y => x == y
  | _, _ => false

-- Integral doubles below 9 * 10 ^ 15 become integers; what is no finite double is no number.
def ofFloat? (x : Float) : Option Number :=
  let size := if x < 0.0 then -x else x
  let whole := size.toUInt64
  if size < 9.0e15 && whole.toFloat == size then
    some (integer (if x < 0.0 then -(whole.toNat : Int) else whole.toNat))
  else if Decimal.isFinite x then some (double x)
  else none

-- Doubles are written positionally from 10 ^ -5 up to 10 ^ 16, always with a point, and otherwise
-- with a signed exponent.
def layout (digits : List Char) (exponent : Int) : List Char :=
  let count : Int := digits.length
  let point := count + exponent
  if 0 < point && point ≤ 16 then
    if count ≤ point then digits ++ List.replicate (point - count).toNat '0' ++ ['.', '0']
    else digits.take point.toNat ++ '.' :: digits.drop point.toNat
  else if -5 < point && point ≤ 0 then
    '0' :: '.' :: (List.replicate (-point).toNat '0' ++ digits)
  else
    let power := point - 1
    let sign := if power < 0 then '-' else '+'
    let mantissa :=
      match digits with
      | d :: e :: rest => d :: '.' :: e :: rest
      | few => few
    mantissa ++ 'e' :: sign :: Nat.toDigits 10 power.natAbs

def doubleText (x : Float) : List Char :=
  let unsigned :=
    let d := Decimal.magnitude x
    if d.mantissa = 0 then ['0', '.', '0']
    else
      let s := d.shortest
      layout (Nat.toDigits 10 s.digits) s.exponent
  if Decimal.isNegative x then '-' :: unsigned else unsigned

def integerText (n : Int) : List Char :=
  if n < 0 then '-' :: Nat.toDigits 10 n.natAbs else Nat.toDigits 10 n.natAbs

def text : Number → List Char
  | integer n => integerText n
  | double x => doubleText x

end Number

end TemplateEngine
