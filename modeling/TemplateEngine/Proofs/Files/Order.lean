import Mathlib.Data.List.Lex
import Mathlib.Data.Prod.Lex
import Mathlib.Data.String.Basic
import TemplateEngine.Files.Path

-- The order of paths: a linear order of their parts, and from it that of lists of parts.
namespace TemplateEngine

namespace PathPart

-- Parts come in the order of their ranks, and names in that of their texts.
def weight : PathPart → Nat ×ₗ String
  | name n => toLex (3, n)
  | p => toLex (p.rank, "")

theorem weight_inj {a b : PathPart} (h : a.weight = b.weight) : a = b := by
  cases a <;> cases b <;> simp_all [weight, rank]

theorem before_iff {a b : PathPart} : a.before b = true ↔ a.weight < b.weight := by
  cases a <;> cases b <;> simp [before, weight, rank, Prod.Lex.toLex_lt_toLex]

end PathPart

namespace Path

variable {p q : Path}

def weight (p : Path) : List (Nat ×ₗ String) := p.parts.map PathPart.weight

theorem partsBefore_iff {as bs : List PathPart} :
    partsBefore as bs = true ↔ as.map PathPart.weight < bs.map PathPart.weight := by
  induction as generalizing bs with
  | nil => cases bs <;> simp [partsBefore]
  | cons a as ih =>
    cases bs with
    | nil => simp [partsBefore]
    | cons b bs =>
      rw [partsBefore, List.map_cons, List.map_cons, List.cons_lt_cons_iff, ← PathPart.before_iff, ← ih]
      have heq : (a == b) = true ↔ a.weight = b.weight := by
        rw [beq_iff_eq]
        exact ⟨congrArg PathPart.weight, PathPart.weight_inj⟩
      simp [← heq]

theorem before_iff : p.before q = true ↔ p.weight < q.weight := partsBefore_iff

theorem same_iff : p.same q = true ↔ p.weight = q.weight := by
  unfold same weight
  rw [beq_iff_eq]
  exact (List.map_inj_right fun _ _ => PathPart.weight_inj).symm

end Path

end TemplateEngine
