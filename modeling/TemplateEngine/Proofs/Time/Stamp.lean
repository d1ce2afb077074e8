import Mathlib.Algebra.Group.Nat.Defs
import TemplateEngine.Proofs.Decimal.Digits
import TemplateEngine.Proofs.Time.Calendar
import TemplateEngine.Time.Stamp

-- A stamp is read back as the instant that it was written for.
namespace TemplateEngine

namespace Instant

open Decimal

-- Instants that clocks show: days in the calendar, and leap seconds only at the end of a minute.
structure Dated (t : Instant) : Prop where
  calendar : inCalendar (t.seconds / 86400) = true
  nanos : t.nanos < 1000000000 ∨ t.nanos < 2000000000 ∧ t.seconds % 60 = 59

instance (t : Instant) : Decidable t.Dated :=
  decidable_of_iff (inCalendar (t.seconds / 86400) = true ∧
    (t.nanos < 1000000000 ∨ t.nanos < 2000000000 ∧ t.seconds % 60 = 59))
    ⟨fun h => ⟨h.1, h.2⟩, fun h => ⟨h.calendar, h.nanos⟩⟩

section Digits

variable {width n : Nat}

theorem isDigit_of_mem_digits {c : Char} (hc : c ∈ digits width n) : c.isDigit = true := by
  rcases List.mem_append.mp hc with hc | hc
  · rw [(List.mem_replicate.mp hc).2]
    decide
  · exact isDigit_of_mem_toDigits hc

theorem length_digits (hwidth : 0 < width) (hn : n < 10 ^ width) : (digits width n).length = width := by
  have hle := (Nat.length_toDigits_le_iff (b := 10) (by decide) hwidth).mpr hn
  rw [digits, List.length_append, List.length_replicate]
  omega

theorem digits_ne_nil : digits width n ≠ [] :=
  List.append_ne_nil_of_right_ne_nil _ Nat.toDigits_ne_nil

theorem ofDigits_digits : ofDigits (digits width n) = n := by
  change Nat.ofDigitChars 10 (List.replicate _ '0' ++ Nat.toDigits 10 n) 0 = n
  rw [Nat.ofDigitChars_append, Nat.ofDigitChars_replicate_zero, Nat.mul_zero,
    Nat.ofDigitChars_ten_toDigits]

theorem ofDigits_append_zeros (cs : List Char) (k : Nat) :
    ofDigits (cs ++ List.replicate k '0') = 10 ^ k * ofDigits cs := by
  change Nat.ofDigitChars 10 (cs ++ List.replicate k '0') 0 = 10 ^ k * Nat.ofDigitChars 10 cs 0
  rw [Nat.ofDigitChars_append, Nat.ofDigitChars_replicate_zero]

theorem not_blank_of_isDigit {c : Char} (hc : c.isDigit = true) : Text.isBlank c = false :=
  forall_digit (P := fun c => Text.isBlank c = false) (by decide) hc

theorem exists_digits_eq_cons (width n : Nat) :
    ∃ c cs, digits width n = c :: cs ∧ c.isDigit = true := by
  obtain ⟨c, cs, heq⟩ : ∃ c cs, digits width n = c :: cs := List.exists_cons_of_ne_nil digits_ne_nil
  have hc : c ∈ digits width n := heq ▸ List.mem_cons_self
  exact ⟨c, cs, heq, isDigit_of_mem_digits hc⟩

theorem trimLeft_cons {c : Char} (hc : Text.isBlank c = false) (cs : List Char) :
    Text.trimLeft (c :: cs) = c :: cs :=
  List.dropWhile_cons_of_neg (by simp [hc])

theorem trimLeft_digits (rest : List Char) :
    Text.trimLeft (digits width n ++ rest) = digits width n ++ rest := by
  obtain ⟨c, cs, heq, hc⟩ := exists_digits_eq_cons width n
  rw [heq, List.cons_append, trimLeft_cons (not_blank_of_isDigit hc)]

theorem takeNumber_digits (hwidth : 0 < width) (hn : n < 10 ^ width) (rest : List Char) :
    takeNumber width (digits width n ++ rest) = some (n, rest) := by
  have hlength := length_digits hwidth hn
  have htake : (digits width n ++ rest).take width = digits width n := List.take_left' hlength
  have hall : (digits width n ++ []).takeWhile Char.isDigit = digits width n :=
    takeWhile_front (fun c hc => isDigit_of_mem_digits hc) (by simp)
  rw [List.append_nil] at hall
  unfold takeNumber
  simp only [trimLeft_digits, htake, hall, List.isEmpty_iff, digits_ne_nil, if_false, ofDigits_digits,
    List.drop_left]

end Digits

theorem expect_cons {c : Char} (hc : Text.isBlank c = false) (rest : List Char) :
    expect c (c :: rest) = some rest := by
  rw [expect, trimLeft_cons hc]
  exact if_pos rfl

-- A year is read up to where its digits end.
theorem takeYear_yearText (year : Int) {rest : List Char} (hrest : ∀ c ∈ rest.head?, c.isDigit = false) :
    takeYear (yearText year ++ rest) = some (year, rest) := by
  have htake := fun n =>
    takeWhile_front (fun c (hc : c ∈ digits 4 n) => isDigit_of_mem_digits hc) hrest
  unfold yearText
  split
  · next hyear =>
    have hread : takeNumber 4 (digits 4 year.toNat ++ rest) = some (year.toNat, rest) :=
      takeNumber_digits (by decide) (by omega) rest
    obtain ⟨c, cs, heq, hc⟩ := exists_digits_eq_cons 4 year.toNat
    unfold takeYear
    rw [trimLeft_digits]
    rw [heq, List.cons_append] at hread ⊢
    split
    · next h =>
      obtain ⟨rfl, -⟩ := List.cons.inj h
      cases hc
    · next h =>
      obtain ⟨rfl, -⟩ := List.cons.inj h
      cases hc
    · simp only [hread, Option.map_some]
      congr 2
      omega
  · next hyear =>
    have hempty : (digits 4 year.natAbs).isEmpty = false := by simp [digits_ne_nil]
    by_cases hnegative : year < 0
    · rw [if_pos hnegative, takeYear, List.cons_append, trimLeft_cons (by decide)]
      simp only [htake, hempty, Bool.false_eq_true, if_false, List.drop_left, ofDigits_digits, if_true]
      congr 2
      omega
    · rw [if_neg hnegative, takeYear, List.cons_append, trimLeft_cons (by decide)]
      simp only [htake, hempty, Bool.false_eq_true, if_false, List.drop_left, ofDigits_digits]
      congr 2
      omega

-- A fraction in few digits says the same as in nine.
theorem takeFraction_fractionText {nanos : Nat} (hn : nanos < 1000000000) :
    takeFraction (fractionText nanos ++ ['Z']) = some (nanos, ['Z']) := by
  have hread : ∀ width n, 0 < width → width ≤ 9 → n < 10 ^ width →
      takeFraction ('.' :: digits width n ++ ['Z']) = some (10 ^ (9 - width) * n, ['Z']) := by
    intro width n hwidth hnine hn
    have hlength := length_digits hwidth hn
    have htake : (digits width n ++ ['Z']).takeWhile Char.isDigit = digits width n :=
      takeWhile_front (fun c hc => isDigit_of_mem_digits hc) (by simp)
    have hall : (digits width n).take 9 = digits width n := List.take_of_length_le (by omega)
    unfold takeFraction
    simp only [List.cons_append, htake, hall, List.isEmpty_iff, digits_ne_nil, if_false, List.drop_left,
      ofDigits_append_zeros, ofDigits_digits]
    rw [hlength]
  unfold fractionText
  split
  · next hzero =>
    subst hzero
    rfl
  · split
    · rw [hread 3 _ (by decide) (by decide) (by omega)]
      congr 2
      omega
    · split
      · rw [hread 6 _ (by decide) (by decide) (by omega)]
        congr 2
        omega
      · rw [hread 9 _ (by decide) (by decide) (by omega)]
        simp

theorem takeOffset_universal : takeOffset ['Z'] = some (0, []) := by decide

-- Days of the calendar have no more than two digits, and neither have their months.
theorem lt_hundred_of_isValid {d : Day} (hd : d.isValid = true) : d.month < 10 ^ 2 ∧ d.day < 10 ^ 2 := by
  simp only [Day.isValid, Bool.and_eq_true, decide_eq_true_eq] at hd
  have hlength : d.day ≤ 31 := by
    refine Nat.le_trans hd.2 ?_
    unfold Day.lengthOfMonth
    split
    · split <;> decide
    · split <;> decide
  omega

-- The time of day that the text of a clock gives, with the nanoseconds after it.
theorem clock_again (second nanos : Nat)
    (hnanos : nanos < 1000000000 ∨ nanos < 2000000000 ∧ second % 60 = 59) :
    second / 3600 * 3600 + second / 60 % 60 * 60 +
          (if (second % 60 + nanos / 1000000000 == 60) = true then 59
            else second % 60 + nanos / 1000000000) = second ∧
      (if (second % 60 + nanos / 1000000000 == 60) = true then nanos % 1000000000 + 1000000000
        else nanos % 1000000000) = nanos := by
  simp only [beq_iff_eq]
  split <;> omega

theorem bind_eq_some {α β : Type} {x : Option α} {f : α → Option β} {a : α} {b : β} (hx : x = some a)
    (hf : f a = some b) : (x >>= f) = some b := by
  rw [hx]
  exact hf

-- What a stamp says is what it was written for.
theorem ofStamp?_stamp {t : Instant} (ht : t.Dated) : ofStamp? t.stamp = some t := by
  obtain ⟨seconds, nanos⟩ := t
  obtain ⟨hcalendar, hnanos⟩ := ht
  dsimp only at hcalendar hnanos
  have hvalid := Day.isValid_ofNumber (seconds / 86400)
  have hnumber := Day.number_ofNumber (seconds / 86400)
  unfold stamp dayText clockText day ofStamp?
  dsimp only
  generalize Day.ofNumber (seconds / 86400) = d at hvalid hnumber ⊢
  generalize hsecond : (seconds % 86400).toNat = second
  obtain ⟨hmonth, hday⟩ := lt_hundred_of_isValid hvalid
  have hhour : second / 3600 < 10 ^ 2 := by omega
  have hminute : second / 60 % 60 < 10 ^ 2 := by omega
  have hlast : second % 60 + nanos / 1000000000 < 10 ^ 2 := by omega
  obtain ⟨htime, hrest⟩ := clock_again second nanos (by omega)
  have hseconds : seconds / 86400 * 86400 + ((second / 3600 : Nat) * 3600 + (second / 60 % 60 : Nat) * 60 +
      ((if (second % 60 + nanos / 1000000000 == 60) = true then 59
        else second % 60 + nanos / 1000000000 : Nat) : Int)) - 0 = seconds := by omega
  simp only [String.toList_ofList, List.append_assoc, List.cons_append]
  -- The parts of a stamp are read one after the other.
  refine bind_eq_some (takeYear_yearText d.year (by simp)) ?_
  refine bind_eq_some (expect_cons rfl _) ?_
  refine bind_eq_some (takeNumber_digits (by decide) hmonth _) ?_
  refine bind_eq_some (expect_cons rfl _) ?_
  refine bind_eq_some (takeNumber_digits (by decide) hday _) ?_
  refine bind_eq_some rfl ?_
  refine bind_eq_some (takeNumber_digits (by decide) hhour _) ?_
  refine bind_eq_some (expect_cons rfl _) ?_
  refine bind_eq_some (takeNumber_digits (by decide) hminute _) ?_
  refine bind_eq_some (expect_cons rfl _) ?_
  refine bind_eq_some (takeNumber_digits (by decide) hlast _) ?_
  refine bind_eq_some (takeFraction_fractionText (by omega)) ?_
  refine bind_eq_some takeOffset_universal ?_
  dsimp only
  simp only [hnumber, hrest]
  rw [hseconds, if_pos]
  · rfl
  · simp only [hvalid, hcalendar, Bool.and_eq_true, decide_eq_true_eq]
    refine ⟨⟨⟨⟨⟨⟨rfl, trivial⟩, ?_⟩, ?_⟩, ?_⟩, trivial⟩, trivial⟩ <;> omega

end Instant

end TemplateEngine
