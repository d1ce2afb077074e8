import TemplateEngine.Decimal.Reading
import TemplateEngine.Expr.Basic
import TemplateEngine.Expr.Fault
import TemplateEngine.Json.Writer
import TemplateEngine.Text.Blank

-- The value of an expression. Names without a binding are null, or failures when evaluation is strict.
namespace TemplateEngine.Expr

inductive Failure where
  | undefined (name : String)
  | invalid (fault : Fault)
deriving DecidableEq, Repr

-- Null, truth values and strings that hold a number count as numbers.
def toNumber (operation : String) : Value → Except Fault Float
  | .number n => .ok n.toFloat
  | .null => .ok 0.0
  | .bool b => .ok (if b then 1.0 else 0.0)
  | .string s =>
    match Decimal.read (Text.trim s.toList) with
    | some x => .ok x
    | none => .error (.notNumeric s operation)
  | v => .error (.notNumber v.kind operation)

-- Numbers are equal by size, all else by structure.
def equal : Value → Value → Bool
  | .number m, .number n => m.toFloat == n.toFloat
  | a, b => a.same b

def compareFloats (x y : Float) : Except Fault Ordering :=
  if x < y then .ok .lt
  else if x == y then .ok .eq
  else if y < x then .ok .gt
  else .error .unordered

def compareStrings (s t : String) : Ordering := if s < t then .lt else if s = t then .eq else .gt

def isScalar : Value → Bool
  | .number _ | .null | .bool _ => true
  | _ => false

def isNumber : Value → Bool
  | .number _ => true
  | _ => false

def isString : Value → Bool
  | .string _ => true
  | _ => false

-- Strings have their own order, and stand for numbers beside numbers.
def compareValues (a b : Value) : Except Fault Ordering :=
  match a, b with
  | .string s, .string t => .ok (compareStrings s t)
  | a, b =>
    if (isScalar a && isScalar b) || (isNumber a && isString b) || (isString a && isNumber b) then do
      let x ← toNumber "compare" a
      let y ← toNumber "compare" b
      compareFloats x y
    else .error (.incomparable a.kind b.kind)

def member (target key : Value) : Value :=
  match target, key with
  | .object fields, key => (Bindings.get? fields key.text).getD .null
  | .array items, .number (.integer n) => if 0 ≤ n then (items[n.toNat]?).getD .null else .null
  | .string s, .number (.integer n) =>
    if 0 ≤ n then ((s.toList[n.toNat]?).map fun c => .string (String.ofList [c])).getD .null else .null
  | _, _ => .null

def arithmetic (operation : String) (f : Float → Float → Float) (left right : Value) : Except Fault Value := do
  let x ← toNumber operation left
  let y ← toNumber operation right
  return .ofFloat (f x y)

-- The divisor is looked at first.
def divide (f : Float → Float → Float) (left right : Value) : Except Fault Value := do
  let divisor ← toNumber "/" right
  if divisor == 0.0 then throw .divisionByZero
  let dividend ← toNumber "/" left
  return .ofFloat (f dividend divisor)

-- The value of an operator on two values. Conjunction and disjunction are settled in `eval`.
def apply (op : Operator) (left right : Value) : Except Fault Value :=
  match op with
  | .or => .ok (.bool (left.truthy || right.truthy))
  | .and => .ok (.bool (left.truthy && right.truthy))
  | .eq => .ok (.bool (equal left right))
  | .ne => .ok (.bool (!equal left right))
  | .lt => (compareValues left right).map fun o => .bool (o == .lt)
  | .gt => (compareValues left right).map fun o => .bool (o == .gt)
  | .le => (compareValues left right).map fun o => .bool (o != .gt)
  | .ge => (compareValues left right).map fun o => .bool (o != .lt)
  | .concat => .ok (.string (left.text ++ right.text))
  | .add => arithmetic "+" (· + ·) left right
  | .sub => arithmetic "-" (· - ·) left right
  | .mul => arithmetic "*" (· * ·) left right
  | .div => divide (· / ·) left right
  | .rem => divide Decimal.remainder left right

def eval (lookup : String → Option Value) (strict : Bool) : Expr → Except Failure Value
  | .literal v => .ok v
  | .named name =>
    match lookup name with
    | some v => .ok v
    | none => if strict then .error (.undefined name) else .ok .null
  | .attribute target name => do
    let v ← eval lookup strict target
    return member v (.string name)
  | .index target key => do
    let v ← eval lookup strict target
    let k ← eval lookup strict key
    return member v k
  | .not operand => do
    let v ← eval lookup strict operand
    return .bool (!v.truthy)
  | .negate operand => do
    let v ← eval lookup strict operand
    let x ← (toNumber "-" v).mapError .invalid
    return .ofFloat (-x)
  | .binary .or left right => do
    let v ← eval lookup strict left
    if v.truthy then return .bool true
    let w ← eval lookup strict right
    return .bool w.truthy
  | .binary .and left right => do
    let v ← eval lookup strict left
    if !v.truthy then return .bool false
    let w ← eval lookup strict right
    return .bool w.truthy
  | .binary op left right => do
    let v ← eval lookup strict left
    let w ← eval lookup strict right
    (apply op v w).mapError .invalid

end TemplateEngine.Expr
