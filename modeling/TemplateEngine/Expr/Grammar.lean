import TemplateEngine.Expr.Basic
import TemplateEngine.Expr.Token

-- The grammar of expressions. Binary operators have six levels, loosest first:
-- or, and, comparison, concatenation, sum, product. A chain of one level leans left, and a
-- comparison takes two operands only. Signs and negation bind tighter, then attribute and
-- index suffixes.
namespace TemplateEngine.Expr

def operatorAt (level : Nat) (t : Token) : Option Operator :=
  match level, t with
  | 0, .symbol .either => some .or
  | 0, .word w => if w = "or" then some .or else none
  | 1, .symbol .both => some .and
  | 1, .word w => if w = "and" then some .and else none
  | 2, .symbol .identical | 2, .symbol .equal => some .eq
  | 2, .symbol .notIdentical | 2, .symbol .unequal => some .ne
  | 2, .symbol .less => some .lt
  | 2, .symbol .greater => some .gt
  | 2, .symbol .atMost => some .le
  | 2, .symbol .atLeast => some .ge
  | 3, .symbol .tilde => some .concat
  | 4, .symbol .plus => some .add
  | 4, .symbol .minus => some .sub
  | 5, .symbol .times => some .mul
  | 5, .symbol .slash => some .div
  | 5, .symbol .percent => some .rem
  | _, _ => none

-- Levels from this one on have no binary operators.
def operandLevel : Nat := 6

def comparisonLevel : Nat := 2

def ofWord (w : String) : Expr :=
  if w = "true" || w = "TRUE" then .literal (.bool true)
  else if w = "false" || w = "FALSE" then .literal (.bool false)
  else if w = "null" || w = "NULL" || w = "none" then .literal .null
  else .named w

-- The whole number at least zero that a numeral after a point stands for, cut off at 64 bits.
def position? (x : Float) : Option Nat :=
  if 0.0 ≤ x && (x.toUInt64.toFloat == x || (9007199254740992.0 ≤ x && Decimal.isFinite x)) then
    some x.toUInt64.toNat
  else none

-- The sign or negation that a token stands for before an operand.
def unaryAt (t : Token) : Option (Expr → Expr) :=
  match t with
  | .symbol .bang => some .not
  | .symbol .minus => some .negate
  | .word w => if w = "not" then some .not else none
  | _ => none

def readAttribute (target : Expr) (ts : List Token) : Except Fault (Expr × Shorter ts) :=
  match ts with
  | .word name :: _ => .ok (.attribute target name, .tail)
  | .variableName name :: _ => .ok (.attribute target name, .tail)
  | .number x :: _ =>
    match position? x with
    | some n => .ok (.index target (.literal (.natural n)), .tail)
    | none => .error .missingAttribute
  | _ => .error .missingAttribute

-- The text after a closing symbol, which must stand at the front.
def closedBy (s : Symbol) (missing : Fault) (ts : List Token) : Except Fault (Shorter ts) :=
  match ts with
  | .symbol t :: _ => if t = s then .ok .tail else .error missing
  | _ => .error missing

mutual

-- An expression whose binary operators all have this level or a tighter one.
def readLevel (level : Nat) (ts : List Token) : Except Fault (Expr × Shorter ts) :=
  if level < operandLevel then
    match readLevel (level + 1) ts with
    | .error fault => .error fault
    | .ok (left, rest) =>
      have := rest.property
      match readOperators level left rest.val with
      | .error fault => .error fault
      | .ok (e, last) => .ok (e, rest.trans last)
  else readPrefixed ts
termination_by 16 * ts.length + 9 - min level 6
decreasing_by all_goals (simp only [operandLevel] at *; omega)

-- The operators of a level that follow an operand, with their right operands.
def readOperators (level : Nat) (left : Expr) (ts : List Token) : Except Fault (Expr × NotLonger ts) :=
  match ts with
  | [] => .ok (left, .all)
  | t :: rest =>
    match operatorAt level t with
    | none => .ok (left, .all)
    | some op =>
      match readLevel (level + 1) rest with
      | .error fault => .error fault
      | .ok (right, after) =>
        have := after.property
        if level = comparisonLevel then
          .ok (.binary op left right, after.cons.loosen)
        else
          match readOperators level (.binary op left right) after.val with
          | .error fault => .error fault
          | .ok (e, last) =>
            .ok (e, (after.trans last).cons.loosen)
termination_by 16 * ts.length
decreasing_by all_goals (simp only [List.length_cons]; omega)

def readPrefixed (ts : List Token) : Except Fault (Expr × Shorter ts) :=
  match ts with
  | [] => .error .unexpectedEnd
  | t :: rest =>
    match unaryAt t with
    | some make =>
      match readPrefixed rest with
      | .error fault => .error fault
      | .ok (e, after) => .ok (make e, after.cons)
    | none => readSuffixed (t :: rest)
termination_by 16 * ts.length + 2
decreasing_by all_goals (simp only [List.length_cons]; omega)

def readSuffixed (ts : List Token) : Except Fault (Expr × Shorter ts) :=
  match readPrimary ts with
  | .error fault => .error fault
  | .ok (e, rest) =>
    have := rest.property
    match readSuffixes e rest.val with
    | .error fault => .error fault
    | .ok (all, last) => .ok (all, rest.trans last)
termination_by 16 * ts.length + 1
decreasing_by all_goals omega

def readSuffixes (target : Expr) (ts : List Token) : Except Fault (Expr × NotLonger ts) :=
  match ts with
  | [] => .ok (target, .all)
  | t :: rest =>
    match t with
    | .symbol .dot =>
      match readAttribute target rest with
      | .error fault => .error fault
      | .ok (e, after) =>
        have := after.property
        match readSuffixes e after.val with
        | .error fault => .error fault
        | .ok (all, last) => .ok (all, (after.trans last).cons.loosen)
    | .symbol .openBracket =>
      match readLevel 0 rest with
      | .error fault => .error fault
      | .ok (key, after) =>
        have := after.property
        match closedBy .closeBracket .missingBracket after.val with
        | .error fault => .error fault
        | .ok more =>
          have := more.property
          match readSuffixes (.index target key) more.val with
          | .error fault => .error fault
          | .ok (all, last) => .ok (all, (after.trans (more.trans last).loosen).cons.loosen)
    | _ => .ok (target, .all)
termination_by 16 * ts.length
decreasing_by all_goals (simp only [List.length_cons]; omega)

def readPrimary (ts : List Token) : Except Fault (Expr × Shorter ts) :=
  match ts with
  | [] => .error .unexpectedEnd
  | t :: rest =>
    match t with
    | .number x => .ok (.literal (.ofFloat x), .tail)
    | .string s => .ok (.literal (.string s), .tail)
    | .variableName name => .ok (.named name, .tail)
    | .word w => .ok (ofWord w, .tail)
    | .symbol .openParen =>
      match readLevel 0 rest with
      | .error fault => .error fault
      | .ok (e, after) =>
        have := after.property
        match closedBy .closeParen .missingParen after.val with
        | .error fault => .error fault
        | .ok more => .ok (e, (after.trans more.loosen).cons)
    | .symbol s => .error (.unexpectedSymbol s)
termination_by 16 * ts.length
decreasing_by all_goals (simp only [List.length_cons]; omega)

end

def read (source : String) : Except Fault Expr :=
  match readTokens source source.toList with
  | .error fault => .error fault
  | .ok [] => .error .empty
  | .ok ts =>
    match readLevel 0 ts with
    | .error fault => .error fault
    | .ok (e, ⟨[], _⟩) => .ok e
    | .ok _ => .error (.trailing source)

end TemplateEngine.Expr
