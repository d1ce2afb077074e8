import TemplateEngine.Proofs.Decimal.Integers
import TemplateEngine.Proofs.Expr.Comparing

-- Integers in comparisons. They are compared as the doubles that they are rounded to, so integers that
-- share one are equal and neither is less.
namespace TemplateEngine.Expr

open Decimal (rounded)

variable {lookup : String → Option Value} {strict : Bool} {left right : Expr} {a b : Int}

-- The integers of template data: those of 64 bits, with or without a sign.
structure IsWord (n : Int) : Prop where
  low : -2 ^ 63 ≤ n
  high : n < 2 ^ 64

theorem IsWord.natAbs_lt {n : Int} (h : IsWord n) : n.natAbs < 2 ^ 64 := by
  have hlow := h.low
  have hhigh := h.high
  omega

theorem equal_integers (ha : IsWord a) (hb : IsWord b) :
    equal (.integer a) (.integer b) = decide (rounded a = rounded b) := by
  change (Float.ofInt a == Float.ofInt b) = _
  rw [Bool.eq_iff_iff, Decimal.ofInt_beq_iff ha.natAbs_lt hb.natAbs_lt, decide_eq_true_iff]

theorem compareValues_integers (ha : IsWord a) (hb : IsWord b) :
    compareValues (.integer a) (.integer b) = .ok (compare (rounded a) (rounded b)) := by
  change compareFloats (Float.ofInt a) (Float.ofInt b) = _
  simp only [compareFloats, Decimal.ofInt_lt_iff ha.natAbs_lt hb.natAbs_lt,
    Decimal.ofInt_beq_iff ha.natAbs_lt hb.natAbs_lt, Decimal.ofInt_lt_iff hb.natAbs_lt ha.natAbs_lt]
  rcases Int.lt_trichotomy (rounded a) (rounded b) with hless | hequal | hmore
  · rw [if_pos hless, Int.compare_eq_lt.mpr hless]
  · rw [if_neg (by omega), if_pos hequal, Int.compare_eq_eq.mpr hequal]
  · rw [if_neg (by omega), if_neg (by omega), if_pos hmore, Int.compare_eq_gt.mpr hmore]

theorem eval_eq_integers (hleft : left.eval lookup strict = .ok (.integer a))
    (hright : right.eval lookup strict = .ok (.integer b)) (ha : IsWord a) (hb : IsWord b) :
    (Expr.binary .eq left right).eval lookup strict = .ok (.bool (decide (rounded a = rounded b))) := by
  rw [eval_binary (by decide) hleft hright, apply, equal_integers ha hb]
  rfl

theorem eval_lt_integers (hleft : left.eval lookup strict = .ok (.integer a))
    (hright : right.eval lookup strict = .ok (.integer b)) (ha : IsWord a) (hb : IsWord b) :
    (Expr.binary .lt left right).eval lookup strict = .ok (.bool (decide (rounded a < rounded b))) := by
  have hless : (compare (rounded a) (rounded b) == .lt) = decide (rounded a < rounded b) := by
    rw [Bool.eq_iff_iff, beq_iff_eq, Int.compare_eq_lt, decide_eq_true_iff]
  rw [eval_binary (by decide) hleft hright, apply, compareValues_integers ha hb, ← hless]
  rfl

-- Integers are compared as integers exactly if they are one number or are rounded to different doubles,
-- and so at least up to 2 ^ 53. Otherwise they are equal, and neither is less.
theorem integers_compared_iff (hleft : left.eval lookup strict = .ok (.integer a))
    (hright : right.eval lookup strict = .ok (.integer b)) (ha : IsWord a) (hb : IsWord b) :
    (((Expr.binary .eq left right).eval lookup strict = .ok (.bool (decide (a = b))) ∧
        (Expr.binary .lt left right).eval lookup strict = .ok (.bool (decide (a < b)))) ↔
      (rounded a = rounded b → a = b)) ∧
    (a.natAbs ≤ 2 ^ 53 → b.natAbs ≤ 2 ^ 53 → rounded a = rounded b → a = b) ∧
    (rounded a = rounded b →
      (Expr.binary .eq left right).eval lookup strict = .ok (.bool true) ∧
        (Expr.binary .lt left right).eval lookup strict = .ok (.bool false)) := by
  rw [eval_eq_integers hleft hright ha hb, eval_lt_integers hleft hright ha hb]
  simp only [Except.ok.injEq, Value.bool.injEq, decide_eq_decide, decide_eq_true_iff, decide_eq_false_iff_not]
  refine ⟨⟨fun h => h.1.mp, fun h => ⟨⟨h, congrArg rounded⟩, ?_⟩⟩, fun hsmall hsmall' h => ?_,
    fun h => ⟨h, by omega⟩⟩
  · rw [Decimal.rounded_lt_iff]
    exact ⟨And.left, fun hless => ⟨hless, fun hsame => Int.ne_of_lt hless (h hsame)⟩⟩
  · rwa [Decimal.rounded_eq_self (Decimal.isDouble_of_natAbs_le hsmall),
      Decimal.rounded_eq_self (Decimal.isDouble_of_natAbs_le hsmall')] at h

-- The first integer that is no double, and the one before it.
def neighbours : Bindings := [("a", .integer 9007199254740993), ("b", .integer 9007199254740992)]

theorem integers_compared_iff_neighbours :
    IsWord 9007199254740993 ∧ IsWord 9007199254740992 ∧
      (Expr.binary .eq (.named "a") (.named "b")).eval neighbours.get? true = .ok (.bool true) ∧
      ¬((Expr.binary .eq (.named "a") (.named "b")).eval neighbours.get? true =
          .ok (.bool (decide ((9007199254740993 : Int) = 9007199254740992))) ∧
        (Expr.binary .lt (.named "a") (.named "b")).eval neighbours.get? true =
          .ok (.bool (decide ((9007199254740993 : Int) < 9007199254740992)))) := by
  have ha : IsWord 9007199254740993 := ⟨by decide, by decide⟩
  have hb : IsWord 9007199254740992 := ⟨by decide, by decide⟩
  have hleft : (Expr.named "a").eval neighbours.get? true = .ok (.integer 9007199254740993) := rfl
  have hright : (Expr.named "b").eval neighbours.get? true = .ok (.integer 9007199254740992) := rfl
  have hcompared := integers_compared_iff hleft hright ha hb
  have hsame : rounded 9007199254740993 = rounded 9007199254740992 := by decide
  exact ⟨ha, hb, (hcompared.2.2 hsame).1, fun h => absurd (hcompared.1.mp h hsame) (by decide)⟩

end TemplateEngine.Expr
