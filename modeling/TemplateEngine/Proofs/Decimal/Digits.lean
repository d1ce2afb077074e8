import TemplateEngine.Decimal.Reading

-- The digits of a natural number: what they say, and where they end in a longer text.
namespace TemplateEngine

section Splitting

variable {α : Type} {p : α → Bool} {front rest : List α}

-- Where the rest begins shows where the front ends.
theorem takeWhile_front (hfront : ∀ a ∈ front, p a = true) (hrest : ∀ a ∈ rest.head?, p a = false) :
    (front ++ rest).takeWhile p = front := by
  rw [List.takeWhile_append_of_pos hfront]
  cases rest with
  | nil => simp
  | cons a rest => simp [hrest a rfl]

theorem dropWhile_front (hfront : ∀ a ∈ front, p a = true) (hrest : ∀ a ∈ rest.head?, p a = false) :
    (front ++ rest).dropWhile p = rest := by
  rw [List.dropWhile_append_of_pos hfront]
  cases rest with
  | nil => rfl
  | cons a rest => simp [hrest a rfl]

end Splitting

namespace Decimal

theorem ofDigits_toDigits (n : Nat) : ofDigits (Nat.toDigits 10 n) = n :=
  Nat.ofDigitChars_ten_toDigits

theorem isDigit_of_mem_toDigits {n : Nat} {c : Char} (hc : c ∈ Nat.toDigits 10 n) : c.isDigit = true :=
  Nat.isDigit_of_mem_toDigits (by decide) (by decide) hc

-- What holds of the ten digits holds of every digit.
theorem forall_digit {P : Char → Prop} (hP : ∀ k < 58, 48 ≤ k → P (Char.ofNat k)) {c : Char}
    (hc : c.isDigit = true) : P c := by
  simp only [Char.isDigit, Bool.and_eq_true, decide_eq_true_eq] at hc
  have hdigit := hP c.toNat (Nat.lt_succ_of_le hc.2) hc.1
  rwa [Char.ofNat_toNat] at hdigit

-- Only zero begins with a zero.
theorem head_toDigits_ne_zero {n : Nat} (hn : 0 < n) : (Nat.toDigits 10 n).head? ≠ some '0' := by
  induction n using Nat.base_induction 10 (by decide) with
  | single n hlt =>
    have hchar : ∀ k < 10, 0 < k → k.digitChar ≠ '0' := by decide
    rw [Nat.toDigits_of_lt_base hlt]
    exact fun h => hchar n hlt hn (Option.some.inj h)
  | digit n k hk hpos ih =>
    obtain ⟨c, cs, hdigits⟩ := List.exists_cons_of_ne_nil (Nat.toDigits_ne_nil (n := n) (b := 10))
    rw [hdigits] at ih
    rw [← Nat.toDigits_append_toDigits (by decide) hpos hk, hdigits]
    exact ih hpos

theorem exists_toDigits_eq_cons (n : Nat) :
    ∃ c cs, Nat.toDigits 10 n = c :: cs ∧ (∀ d ∈ c :: cs, d.isDigit = true) ∧ (c = '0' → cs = []) := by
  obtain ⟨c, cs, hdigits⟩ := List.exists_cons_of_ne_nil (Nat.toDigits_ne_nil (n := n) (b := 10))
  refine ⟨c, cs, hdigits, fun d hd => isDigit_of_mem_toDigits (n := n) (hdigits ▸ hd), ?_⟩
  rintro rfl
  rcases Nat.eq_zero_or_pos n with rfl | hpos
  · rw [Nat.toDigits_zero] at hdigits
    exact (List.cons.inj hdigits).2.symm
  · exact absurd (by rw [hdigits]; rfl) (head_toDigits_ne_zero hpos)

end Decimal

end TemplateEngine
