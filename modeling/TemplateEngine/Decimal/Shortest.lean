import TemplateEngine.Decimal.Dyadic

-- The shortest decimal that reads back as a given double. A double stands for all reals that
-- round to it; among the decimals with the fewest digits in that interval the nearest is taken.
namespace TemplateEngine.Decimal

structure Scientific where
  digits : Nat
  exponent : Int
deriving DecidableEq, Repr

def compareScaled (a : Nat) (i : Int) (n : Nat) (j : Int) : Ordering :=
  compare (a * tenTo i.toNat * twoTo (-j).toNat) (n * twoTo j.toNat * tenTo (-i).toNat)

-- Whether a decimal lies among the reals that round to the double. The gap below a power of
-- two is half as wide as the gap above, and ends belong to doubles with an even mantissa.
def Dyadic.readsBack (d : Dyadic) (s : Scientific) : Bool :=
  let narrow := d.mantissa == twoTo 52 && -1074 < d.exponent
  let low := if narrow then 4 * d.mantissa - 1 else 4 * d.mantissa - 2
  let high := 4 * d.mantissa + 2
  let closed := d.mantissa % 2 == 0
  let fromLow := compareScaled s.digits s.exponent low (d.exponent - 2)
  let fromHigh := compareScaled s.digits s.exponent high (d.exponent - 2)
  (fromLow == .gt || (closed && fromLow == .eq)) && (fromHigh == .lt || (closed && fromHigh == .eq))

-- The least k with d < 10 ^ k, for a positive d.
def Dyadic.scale (d : Dyadic) : Int :=
  let guess := ((Nat.log2 d.mantissa : Int) + d.exponent) * 30103 / 100000
  let candidates := [guess - 1, guess, guess + 1, guess + 2]
  (candidates.find? fun k => compareScaled 1 k d.mantissa d.exponent == .gt).getD (guess + 3)

-- The neighbour of d on the grid of multiples of 10 ^ e that reads back, the nearer of two.
def Dyadic.onGrid? (d : Dyadic) (e : Int) : Option Scientific :=
  let numerator := d.mantissa * twoTo d.exponent.toNat * tenTo (-e).toNat
  let denominator := twoTo (-d.exponent).toNat * tenTo e.toNat
  let below := numerator / denominator
  let low : Scientific := ⟨below, e⟩
  let high : Scientific := ⟨below + 1, e⟩
  match d.readsBack low && 0 < below, d.readsBack high with
  | true, false => some low
  | false, true => some high
  | true, true =>
    match compare (2 * numerator) ((2 * below + 1) * denominator) with
    | .lt => some low
    | .gt => some high
    | .eq => some (if below % 2 = 0 then low else high)
  | false, false => none

def Scientific.strip : Nat → Scientific → Scientific
  | 0, s => s
  | n + 1, s => if s.digits ≠ 0 ∧ s.digits % 10 = 0 then strip n ⟨s.digits / 10, s.exponent + 1⟩ else s

-- For a positive d. Seventeen digits always suffice; the exact value stands behind them.
def Dyadic.shortest (d : Dyadic) : Scientific :=
  let k := d.scale
  match (List.range 17).findSome? fun (n : Nat) => d.onGrid? (k - n - 1) with
  | some s => s.strip 17
  | none => ⟨d.mantissa * twoTo d.exponent.toNat * Nat.pow 5 (-d.exponent).toNat, -((-d.exponent).toNat : Int)⟩

end TemplateEngine.Decimal
