import TemplateEngine.Text.Distance
import Mathlib.Order.Bounds.Basic
import Mathlib.Order.MinMax

-- The distance of two texts is the least number of changes that turn one into the other. The table of
-- distances grows at the ends of the texts; what its entries mean is said from their fronts, so the
-- entries stand for reversed texts.
namespace TemplateEngine.Text

-- A way from one text to the other, with its number of changes.
inductive Edits : Nat → List Char → List Char → Prop
  | done : Edits 0 [] []
  | keep {n : Nat} {a b : List Char} (x : Char) (h : Edits n a b) : Edits n (x :: a) (x :: b)
  | replace {n : Nat} {a b : List Char} (x y : Char) (h : Edits n a b) : Edits (n + 1) (x :: a) (y :: b)
  | delete {n : Nat} {a b : List Char} (x : Char) (h : Edits n a b) : Edits (n + 1) (x :: a) b
  | insert {n : Nat} {a b : List Char} (y : Char) (h : Edits n a b) : Edits (n + 1) a (y :: b)

section Ways

variable {m n : Nat} {a b c d : List Char}

theorem Edits.append (h : Edits n a b) (h' : Edits m c d) : Edits (n + m) (a ++ c) (b ++ d) := by
  induction h with
  | done => rwa [Nat.zero_add]
  | keep x _ ih => exact ih.keep x
  | replace x y _ ih =>
    rw [Nat.add_right_comm]
    exact ih.replace x y
  | delete x _ ih =>
    rw [Nat.add_right_comm]
    exact ih.delete x
  | insert y _ ih =>
    rw [Nat.add_right_comm]
    exact ih.insert y

theorem Edits.reverse (h : Edits n a b) : Edits n a.reverse b.reverse := by
  induction h with
  | done => exact .done
  | keep x _ ih =>
    rw [List.reverse_cons, List.reverse_cons]
    exact ih.append (.keep x .done)
  | replace x y _ ih =>
    rw [List.reverse_cons, List.reverse_cons]
    exact ih.append (.replace x y .done)
  | delete x _ ih =>
    rw [List.reverse_cons]
    have hlast := ih.append (.delete x .done)
    rwa [List.append_nil] at hlast
  | insert y _ ih =>
    rw [List.reverse_cons]
    have hlast := ih.append (.insert y .done)
    rwa [List.append_nil] at hlast

theorem edits_nil (b : List Char) : Edits b.length [] b := by
  induction b with
  | nil => exact .done
  | cons y b ih => exact ih.insert y

theorem nil_edits (a : List Char) : Edits a.length a [] := by
  induction a with
  | nil => exact .done
  | cons x a ih => exact ih.delete x

end Ways

-- The least number of changes, by what is done at the front.
def fewest : List Char → List Char → Nat
  | [], b => b.length
  | x :: a, [] => (x :: a).length
  | x :: a, y :: b =>
    min (min (fewest (x :: a) b + 1) (fewest a (y :: b) + 1)) (fewest a b + if x = y then 0 else 1)

section Fewest

variable {n : Nat} {a b : List Char}

@[simp]
theorem fewest_nil_left (b : List Char) : fewest [] b = b.length := by
  rw [fewest]

@[simp]
theorem fewest_nil_right (a : List Char) : fewest a [] = a.length := by
  cases a with
  | nil => rw [fewest]
  | cons x a => rw [fewest]

theorem fewest_cons_left (x : Char) (a b : List Char) : fewest (x :: a) b ≤ fewest a b + 1 := by
  cases b with
  | nil => simp
  | cons y b =>
    rw [fewest]
    omega

theorem fewest_cons_right (y : Char) (a b : List Char) : fewest a (y :: b) ≤ fewest a b + 1 := by
  cases a with
  | nil => simp
  | cons x a =>
    rw [fewest]
    omega

theorem edits_fewest (a b : List Char) : Edits (fewest a b) a b := by
  fun_induction fewest a b with
  | case1 b => exact edits_nil b
  | case2 x a => exact nil_edits (x :: a)
  | case3 x a y b hinsert hdelete hboth =>
    rcases min_choice (min (fewest (x :: a) b + 1) (fewest a (y :: b) + 1))
      (fewest a b + if x = y then 0 else 1) with h | h
    · rw [h]
      rcases min_choice (fewest (x :: a) b + 1) (fewest a (y :: b) + 1) with h' | h'
      · rw [h']
        exact hinsert.insert y
      · rw [h']
        exact hdelete.delete x
    · rw [h]
      split
      case isTrue hxy =>
        subst hxy
        exact hboth.keep x
      case isFalse => exact hboth.replace x y

theorem fewest_le (h : Edits n a b) : fewest a b ≤ n := by
  induction h with
  | done => simp
  | keep x _ ih =>
    rw [fewest, if_pos rfl]
    omega
  | replace x y _ ih =>
    rw [fewest]
    split <;> omega
  | delete x _ ih => exact (fewest_cons_left x _ _).trans (Nat.succ_le_succ ih)
  | insert y _ ih => exact (fewest_cons_right y _ _).trans (Nat.succ_le_succ ih)

end Fewest

-- The row of the table behind some characters of one text: the distances to the texts that the other
-- one grows through.
def rowFrom (before grown : List Char) : List Char → List Nat
  | [] => [fewest before grown]
  | y :: ys => fewest before grown :: rowFrom before (y :: grown) ys

section Rows

variable {before grown ys : List Char}

theorem rowFrom_eq_cons (before grown ys : List Char) :
    ∃ above, rowFrom before grown ys = fewest before grown :: above := by
  cases ys with
  | nil => exact ⟨[], rfl⟩
  | cons y ys => exact ⟨_, rfl⟩

theorem distanceRow_eq (x : Char) {above : List Nat}
    (h : rowFrom before grown ys = fewest before grown :: above) :
    fewest (x :: before) grown ::
        distanceRow x ys above (fewest before grown) (fewest (x :: before) grown) =
      rowFrom (x :: before) grown ys := by
  induction ys generalizing grown above with
  | nil =>
    cases h
    rfl
  | cons y ys ih =>
    obtain ⟨rest, hrest⟩ := rowFrom_eq_cons before (y :: grown) ys
    obtain rfl : above = fewest before (y :: grown) :: rest := by
      rw [← hrest]
      exact (List.cons.inj h).2.symm
    have hhere : min (min (fewest (x :: before) grown + 1) (fewest before (y :: grown) + 1))
        (fewest before grown + if x = y then 0 else 1) = fewest (x :: before) (y :: grown) := by
      rw [fewest]
    rw [distanceRow, rowFrom, ← ih hrest]
    rw [hhere]

theorem nextRow_eq (b : List Char) (before : List Char) (x : Char) :
    nextRow b (rowFrom before [] b) x = rowFrom (x :: before) [] b := by
  obtain ⟨above, hrow⟩ := rowFrom_eq_cons before [] b
  have hcorner : fewest (x :: before) [] = fewest before [] + 1 := by simp
  rw [← distanceRow_eq x hrow, hrow, nextRow, hcorner]

theorem foldl_nextRow (a b before : List Char) :
    a.foldl (nextRow b) (rowFrom before [] b) = rowFrom (a.reverse ++ before) [] b := by
  induction a generalizing before with
  | nil => rfl
  | cons x a ih => rw [List.foldl_cons, nextRow_eq, ih, List.reverse_cons, List.append_assoc, List.singleton_append]

theorem rowFrom_nil (grown ys : List Char) :
    rowFrom [] grown ys = List.range' grown.length (ys.length + 1) := by
  induction ys generalizing grown with
  | nil => simp [rowFrom]
  | cons y ys ih =>
    rw [rowFrom, ih, fewest_nil_left]
    exact List.range'_succ.symm

theorem getLast?_rowFrom (before grown ys : List Char) :
    (rowFrom before grown ys).getLast? = some (fewest before (ys.reverse ++ grown)) := by
  induction ys generalizing grown with
  | nil => rfl
  | cons y ys ih =>
    obtain ⟨above, habove⟩ := rowFrom_eq_cons before (y :: grown) ys
    have hlast := ih (y :: grown)
    rw [habove] at hlast
    rw [rowFrom, habove, List.getLast?_cons_cons, hlast, List.reverse_cons, List.append_assoc,
      List.singleton_append]

end Rows

theorem distance_eq_fewest (a b : List Char) : distance a b = fewest a.reverse b.reverse := by
  have hfirst : List.range (b.length + 1) = rowFrom [] [] b := by
    rw [rowFrom_nil, List.length_nil, List.range_eq_range']
  rw [distance, hfirst, foldl_nextRow, getLast?_rowFrom, Option.getD_some, List.append_nil, List.append_nil]

-- No way from one text to the other has fewer changes than their distance.
theorem isLeast_distance (a b : List Char) : IsLeast {n | Edits n a b} (distance a b) := by
  rw [distance_eq_fewest]
  constructor
  · have hback := (edits_fewest a.reverse b.reverse).reverse
    rwa [List.reverse_reverse, List.reverse_reverse] at hback
  · exact fun n h => fewest_le h.reverse

end TemplateEngine.Text
