import TemplateEngine.Expr.Eval
import TemplateEngine.Proofs.Decimal.Exact
import TemplateEngine.Proofs.Runs

-- How the comparisons of two values go together. Each of them is decided by the one order of values,
-- but for equality, which keeps values of different kinds apart where the order takes both as numbers.
namespace TemplateEngine.Expr

variable {lookup : String → Option Value} {strict : Bool} {left right : Expr} {a b : Value} {o : Ordering}

-- An operator that always looks at both sides is applied to their values.
theorem eval_binary {op : Operator} (hop : op ≠ .or ∧ op ≠ .and) (hleft : left.eval lookup strict = .ok a)
    (hright : right.eval lookup strict = .ok b) :
    (Expr.binary op left right).eval lookup strict = (apply op a b).mapError .invalid := by
  have hvalues : ∀ f : Value → Value → Except Failure Value,
      (do let v ← left.eval lookup strict; let w ← right.eval lookup strict; f v w) = f a b := by
    intro f
    rw [hleft, hright]
    rfl
  cases op with
  | or => exact absurd rfl hop.1
  | and => exact absurd rfl hop.2
  | _ =>
    unfold eval
    exact hvalues _

-- Two doubles are equal exactly where the order finds them to be.
theorem beq_of_compareFloats {x y : Float} (h : compareFloats x y = .ok o) : (x == y) = (o == .eq) := by
  unfold compareFloats at h
  split at h
  · next hless =>
    cases h
    rw [Decimal.lt_iff_compare] at hless
    refine Bool.eq_false_iff.mpr fun hequal => ?_
    rw [Decimal.beq_iff_compare, hless] at hequal
    cases hequal
  · split at h
    · next hequal =>
      cases h
      exact hequal
    · next hequal =>
      split at h <;> cases h
      exact Bool.eq_false_iff.mpr hequal

theorem beq_of_compareStrings {s t : String} (h : compareStrings s t = o) : (s == t) = (o == .eq) := by
  unfold compareStrings at h
  split at h
  · next hless =>
    subst h
    exact beq_false_of_ne fun hequal => String.lt_irrefl t (hequal ▸ hless)
  · split at h <;> subst h <;> simp_all

theorem equal_of_kind_ne (h : a.kind ≠ b.kind) : equal a b = false := by
  cases a <;> cases b <;> first | rfl | exact absurd rfl h

-- Values of one kind are equal exactly where the order finds them to be.
theorem equal_of_kind_eq (hkind : a.kind = b.kind) (h : compareValues a b = .ok o) :
    equal a b = (o == .eq) := by
  cases a <;> cases b <;> try (simp [Value.kind] at hkind; done)
  case null.null =>
    cases h
    rfl
  case bool.bool c d => cases c <;> cases d <;> cases h <;> rfl
  case number.number m n => exact beq_of_compareFloats h
  case string.string s t => exact beq_of_compareStrings (Except.ok.inj h)
  case array.array => cases h
  case object.object => cases h

-- Two values that stand for one number where numbers are compared.
def SameSize (a b : Value) : Prop :=
  ∃ x y, toNumber "compare" a = .ok x ∧ toNumber "compare" b = .ok y ∧ (x == y) = true

-- Values of different kinds are ordered as the numbers that they stand for.
theorem sameSize_iff (hkind : a.kind ≠ b.kind) (h : compareValues a b = .ok o) : SameSize a b ↔ o = .eq := by
  obtain ⟨x, y, hx, hy, hxy⟩ : ∃ x y, toNumber "compare" a = .ok x ∧ toNumber "compare" b = .ok y ∧
      compareFloats x y = .ok o := by
    unfold compareValues at h
    split at h
    · exact absurd rfl hkind
    · split at h
      · obtain ⟨x, hx, h⟩ := bind_eq_ok h
        obtain ⟨y, hy, h⟩ := bind_eq_ok h
        exact ⟨x, y, hx, hy, h⟩
      · cases h
  have hequal := beq_of_compareFloats hxy
  constructor
  · rintro ⟨x', y', hx', hy', hsame⟩
    cases hx.symm.trans hx'
    cases hy.symm.trans hy'
    exact beq_iff_eq.mp (hequal.symm.trans hsame)
  · rintro rfl
    exact ⟨x, y, hx, hy, hequal⟩

-- What the comparisons of two values give.
structure Comparison where
  less : Bool
  equal : Bool
  greater : Bool
  atMost : Bool
  atLeast : Bool
deriving DecidableEq

namespace Comparison

-- Exactly one of less, equal and greater, and the other two with them.
structure Consistent (c : Comparison) : Prop where
  one : [c.less, c.equal, c.greater].count true = 1
  atMost : c.atMost = (c.less || c.equal)
  atLeast : c.atLeast = (c.greater || c.equal)

-- Neither of two values is in front of the other, and they are not equal either.
def tied : Comparison := ⟨false, false, false, true, true⟩

def ofOrdering (o : Ordering) : Comparison := ⟨o == .lt, o == .eq, o == .gt, o != .gt, o != .lt⟩

theorem consistent_ofOrdering (o : Ordering) : (ofOrdering o).Consistent := by
  cases o <;> exact ⟨rfl, rfl, rfl⟩

-- What is found when two expressions are compared.
structure Found (lookup : String → Option Value) (strict : Bool) (left right : Expr) (c : Comparison) : Prop where
  less : (Expr.binary .lt left right).eval lookup strict = .ok (.bool c.less)
  equal : (Expr.binary .eq left right).eval lookup strict = .ok (.bool c.equal)
  greater : (Expr.binary .gt left right).eval lookup strict = .ok (.bool c.greater)
  atMost : (Expr.binary .le left right).eval lookup strict = .ok (.bool c.atMost)
  atLeast : (Expr.binary .ge left right).eval lookup strict = .ok (.bool c.atLeast)

end Comparison

theorem compareValues_of_less {v : Value} (hleft : left.eval lookup strict = .ok a)
    (hright : right.eval lookup strict = .ok b)
    (hless : (Expr.binary .lt left right).eval lookup strict = .ok v) : ∃ o, compareValues a b = .ok o := by
  rw [eval_binary (by decide) hleft hright, mapError_eq_ok] at hless
  obtain ⟨o, ho, -⟩ := map_eq_ok hless
  exact ⟨o, ho⟩

theorem found_of_compareValues (hleft : left.eval lookup strict = .ok a)
    (hright : right.eval lookup strict = .ok b) (h : compareValues a b = .ok o) :
    Comparison.Found lookup strict left right { Comparison.ofOrdering o with equal := equal a b } := by
  constructor <;> rw [eval_binary (by decide) hleft hright, mapError_eq_ok, apply] <;> first | rfl | (rw [h]; rfl)

-- Where two values have an order, the comparisons of them are consistent, but for values of different
-- kinds that stand for one number: these are not equal, and yet each of them is at most the other.
theorem comparison_found {v : Value} (hleft : left.eval lookup strict = .ok a)
    (hright : right.eval lookup strict = .ok b)
    (hless : (Expr.binary .lt left right).eval lookup strict = .ok v) :
    ∃ c, Comparison.Found lookup strict left right c ∧
      (¬(a.kind ≠ b.kind ∧ SameSize a b) → c.Consistent) ∧
      (a.kind ≠ b.kind ∧ SameSize a b → c = .tied) := by
  obtain ⟨o, ho⟩ := compareValues_of_less hleft hright hless
  refine ⟨_, found_of_compareValues hleft hright ho, fun hapart => ?_, fun ⟨hkind, hsize⟩ => ?_⟩
  · by_cases hkind : a.kind = b.kind
    · rw [equal_of_kind_eq hkind ho]
      exact Comparison.consistent_ofOrdering o
    · rw [sameSize_iff hkind ho] at hapart
      rw [equal_of_kind_ne hkind]
      cases o with
      | eq => exact absurd ⟨hkind, rfl⟩ hapart
      | lt | gt => exact ⟨rfl, rfl, rfl⟩
  · rw [sameSize_iff hkind ho] at hsize
    subst hsize
    rw [equal_of_kind_ne hkind]
    rfl

-- A truth value beside a number that it does not stand for.
theorem comparison_found_flag :
    ∃ c, Comparison.Found (Bindings.get? [("flag", .bool true), ("n", .integer 3)]) true
        (.named "flag") (.named "n") c ∧
      (¬((Value.bool true).kind ≠ (Value.integer 3).kind ∧ SameSize (.bool true) (.integer 3)) → c.Consistent) ∧
      ((Value.bool true).kind ≠ (Value.integer 3).kind ∧ SameSize (.bool true) (.integer 3) → c = .tied) := by
  have hless : (Expr.binary .lt (.named "flag") (.named "n")).eval
      (Bindings.get? [("flag", .bool true), ("n", .integer 3)]) true = .ok (.bool true) := by
    rfl
  exact comparison_found rfl rfl hless

-- Null counts as zero where it is ordered, but it is not equal to zero.
theorem null_tied_with_zero :
    Comparison.Found (Bindings.get? [("gap", .null), ("n", .integer 0)]) true (.named "gap") (.named "n") .tied ∧
      ¬Comparison.tied.Consistent :=
  ⟨⟨rfl, rfl, rfl, rfl, rfl⟩, fun h => absurd h.one (by decide)⟩

end TemplateEngine.Expr
