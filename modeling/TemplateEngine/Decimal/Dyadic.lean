-- Finite doubles as exact numbers: a mantissa times a power of two, and a sign beside it.
namespace TemplateEngine.Decimal

def twoTo (n : Nat) : Nat := Nat.pow 2 n

def tenTo (n : Nat) : Nat := Nat.pow 10 n

structure Dyadic where
  mantissa : Nat
  exponent : Int
deriving DecidableEq, Repr

def isNegative (x : Float) : Bool := x.toBits >>> 63 == 1

def isFinite (x : Float) : Bool := (x.toBits >>> 52) &&& 0x7FF != 0x7FF

def Dyadic.ofBits (bits : UInt64) : Dyadic :=
  let field := ((bits >>> 52) &&& 0x7FF).toNat
  let fraction := (bits &&& 0xFFFFFFFFFFFFF).toNat
  if field = 0 then ⟨fraction, -1074⟩ else ⟨twoTo 52 + fraction, (field : Int) - 1075⟩

def magnitude (x : Float) : Dyadic := Dyadic.ofBits x.toBits

-- The double with a given sign and a magnitude that some double has.
def Dyadic.toFloat (negative : Bool) (d : Dyadic) : Float :=
  let sign : UInt64 := if negative then 0x8000000000000000 else 0
  if d.mantissa = 0 then Float.ofBits sign
  else
    let lowest : Int := d.exponent + (Nat.log2 d.mantissa : Int) - 52
    let exponent : Int := max lowest (-1074)
    let mantissa := d.mantissa * twoTo (d.exponent - exponent).toNat / twoTo (exponent - d.exponent).toNat
    let field : Nat := if mantissa < twoTo 52 then 0 else (exponent + 1075).toNat
    Float.ofBits (sign ||| (UInt64.ofNat field <<< 52) ||| (UInt64.ofNat (mantissa % twoTo 52)))

-- The remainder of a division that rounds toward zero. It keeps the sign of the dividend and is exact.
def remainder (x y : Float) : Float :=
  if !isFinite x || y == 0.0 || y != y then 0.0 / 0.0
  else if !isFinite y then x
  else
    let a := magnitude x
    let b := magnitude y
    let exponent := min a.exponent b.exponent
    let scaled (d : Dyadic) := d.mantissa * twoTo (d.exponent - exponent).toNat
    Dyadic.toFloat (isNegative x) ⟨scaled a % scaled b, exponent⟩

end TemplateEngine.Decimal
