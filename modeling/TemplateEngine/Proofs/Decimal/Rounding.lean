import Mathlib

-- Whole numbers rounded to 53 significant bits. What such a number is rounded to is as near to it as any
-- number of 53 bits, and so rounding keeps the order of two numbers or makes them one.
namespace TemplateEngine.Decimal

-- The multiple of the unit that is nearest, counted in units. Half way the even one is taken.
def roundHalfEven (n unit : Nat) : Nat :=
  match compare (2 * (n % unit)) unit with
  | .lt => n / unit
  | .eq => n / unit + n / unit % 2
  | .gt => n / unit + 1

section Units

variable {n unit : Nat}

theorem roundHalfEven_cases (n unit : Nat) :
    roundHalfEven n unit = n / unit ∧ 2 * (n % unit) ≤ unit ∨
      roundHalfEven n unit = n / unit + 1 ∧ unit ≤ 2 * (n % unit) := by
  unfold roundHalfEven
  split
  · next h => exact .inl ⟨rfl, Nat.le_of_lt (Nat.compare_eq_lt.mp h)⟩
  · next h =>
    have heq := Nat.compare_eq_eq.mp h
    rcases Nat.mod_two_eq_zero_or_one (n / unit) with heven | hodd
    · exact .inl ⟨by rw [heven, Nat.add_zero], heq.le⟩
    · exact .inr ⟨by rw [hodd], heq.ge⟩
  · next h => exact .inr ⟨rfl, Nat.le_of_lt (Nat.compare_eq_gt.mp h)⟩

theorem roundHalfEven_mul (n unit : Nat) {c : Nat} (hc : 0 < c) :
    roundHalfEven (n * c) (unit * c) = roundHalfEven n unit := by
  have hcompare : compare (2 * (n % unit * c)) (unit * c) = compare (2 * (n % unit)) unit := by
    rw [← Nat.mul_assoc]
    simp only [Nat.compare_eq_ite_lt, Nat.mul_lt_mul_right hc]
  unfold roundHalfEven
  rw [Nat.mul_mod_mul_right, Nat.mul_div_mul_right _ _ hc, hcompare]

theorem roundHalfEven_one (n : Nat) : roundHalfEven n 1 = n := by
  unfold roundHalfEven
  rw [Nat.mod_one, Nat.div_one]
  rfl

-- The multiples of the unit on both sides of a number are no nearer than the one that is taken.
theorem roundHalfEven_near (n unit : Nat) (hunit : 0 < unit) :
    ((n : Int) - (roundHalfEven n unit * unit : Nat)).natAbs ≤ n - n / unit * unit ∧
      ((n : Int) - (roundHalfEven n unit * unit : Nat)).natAbs ≤ (n / unit + 1) * unit - n := by
  have hsplit := Nat.div_add_mod' n unit
  have hrest := Nat.mod_lt n hunit
  have hnext : (n / unit + 1) * unit = n / unit * unit + unit := Nat.succ_mul _ _
  rcases roundHalfEven_cases n unit with ⟨hround, hhalf⟩ | ⟨hround, hhalf⟩
  · rw [hround]
    omega
  · rw [hround, hnext]
    omega

end Units

-- Whole numbers that 53 significant bits are enough for.
def IsDouble (v : Int) : Prop := ∃ m j : Nat, m < 2 ^ 53 ∧ v.natAbs = m * 2 ^ j

-- How many bits a number has beyond 53, and what is left when they are rounded away.
def excess (n : Nat) : Nat := n.log2 - 52

def roundedNat (n : Nat) : Nat := roundHalfEven n (2 ^ excess n) * 2 ^ excess n

def rounded (n : Int) : Int := n.sign * roundedNat n.natAbs

section Naturals

variable {n : Nat}

theorem excess_eq_zero (h : n < 2 ^ 53) : excess n = 0 := by
  unfold excess
  rcases Nat.eq_zero_or_pos n with rfl | hpos
  · rfl
  · have hlog := (Nat.log2_lt (Nat.ne_of_gt hpos)).mpr h
    omega

theorem roundedNat_of_lt (h : n < 2 ^ 53) : roundedNat n = n := by
  rw [roundedNat, excess_eq_zero h, Nat.pow_zero, roundHalfEven_one, Nat.mul_one]

-- Without its excess a number has 53 bits.
theorem div_excess (h : 2 ^ 52 ≤ n) : 2 ^ 52 ≤ n / 2 ^ excess n ∧ n / 2 ^ excess n < 2 ^ 53 := by
  have hne : n ≠ 0 := by omega
  have hlog : 52 ≤ n.log2 := (Nat.le_log2 hne).mpr h
  have hlow := Nat.log2_self_le hne
  have hhigh := Nat.lt_log2_self (n := n)
  have hbits : n.log2 = 52 + excess n := by
    unfold excess
    omega
  constructor
  · rw [Nat.le_div_iff_mul_le (Nat.two_pow_pos _), ← Nat.pow_add, ← hbits]
    exact hlow
  · rw [Nat.div_lt_iff_lt_mul (Nat.two_pow_pos _), ← Nat.pow_add]
    rwa [hbits, show 52 + excess n + 1 = 53 + excess n by omega] at hhigh

theorem roundHalfEven_excess_bounds (h : 2 ^ 52 ≤ n) :
    2 ^ 52 ≤ roundHalfEven n (2 ^ excess n) ∧ roundHalfEven n (2 ^ excess n) ≤ 2 ^ 53 := by
  have hdiv := div_excess h
  rcases roundHalfEven_cases n (2 ^ excess n) with ⟨hround, -⟩ | ⟨hround, -⟩ <;> omega

theorem exists_roundedNat (n : Nat) : ∃ m j, m < 2 ^ 53 ∧ roundedNat n = m * 2 ^ j := by
  rcases Nat.lt_or_ge n (2 ^ 53) with hless | hmore
  · exact ⟨n, 0, hless, by rw [roundedNat_of_lt hless, Nat.pow_zero, Nat.mul_one]⟩
  · have hbound := (roundHalfEven_excess_bounds (n := n) (by omega)).2
    rcases Nat.lt_or_eq_of_le hbound with hless | hfull
    · exact ⟨_, _, hless, rfl⟩
    · refine ⟨2 ^ 52, excess n + 1, by decide, ?_⟩
      rw [roundedNat, hfull, ← Nat.pow_add, ← Nat.pow_add]
      congr 1
      omega

-- Between the multiples of the unit around a number there is nothing that 53 bits are enough for.
theorem outside_of_isDouble (h : 2 ^ 53 ≤ n) {m j : Nat} (hm : m < 2 ^ 53) :
    m * 2 ^ j ≤ n / 2 ^ excess n * 2 ^ excess n ∨ (n / 2 ^ excess n + 1) * 2 ^ excess n ≤ m * 2 ^ j := by
  rcases Nat.lt_or_ge j (excess n) with hfine | hcoarse
  · left
    obtain ⟨i, hi⟩ := Nat.exists_eq_add_of_lt hfine
    calc
      m * 2 ^ j ≤ 2 ^ 53 * 2 ^ j := Nat.mul_le_mul_right _ (Nat.le_of_lt hm)
      _ ≤ 2 ^ 53 * 2 ^ (j + i) := Nat.mul_le_mul_left _ (Nat.pow_le_pow_right (by decide) (by omega))
      _ = 2 ^ 52 * 2 ^ excess n := by
        rw [hi, ← Nat.pow_add, ← Nat.pow_add]
        congr 1
        omega
      _ ≤ n / 2 ^ excess n * 2 ^ excess n := Nat.mul_le_mul_right _ (div_excess (by omega)).1
  · obtain ⟨i, rfl⟩ := Nat.exists_eq_add_of_le hcoarse
    have hmultiple : m * 2 ^ (excess n + i) = m * 2 ^ i * 2 ^ excess n := by
      rw [Nat.pow_add]
      ring
    rw [hmultiple]
    rcases Nat.lt_or_ge (n / 2 ^ excess n) (m * 2 ^ i) with habove | hbelow
    · exact .inr (Nat.mul_le_mul_right _ habove)
    · exact .inl (Nat.mul_le_mul_right _ hbelow)

theorem roundedNat_nearest {m j : Nat} (hm : m < 2 ^ 53) :
    ((n : Int) - roundedNat n).natAbs ≤ ((n : Int) - (m * 2 ^ j : Nat)).natAbs := by
  rcases Nat.lt_or_ge n (2 ^ 53) with hless | hmore
  · rw [roundedNat_of_lt hless, Int.sub_self]
    exact Nat.zero_le _
  · have hnear := roundHalfEven_near n (2 ^ excess n) (Nat.two_pow_pos _)
    rw [← roundedNat] at hnear
    rcases outside_of_isDouble hmore hm (j := j) with hbelow | habove <;> omega

end Naturals

variable {a b n v : Int}

theorem rounded_cases (n : Int) :
    n < 0 ∧ rounded n = -(roundedNat n.natAbs : Int) ∨ 0 ≤ n ∧ rounded n = roundedNat n.natAbs := by
  rcases Int.lt_trichotomy n 0 with hneg | rfl | hpos
  · exact .inl ⟨hneg, by rw [rounded, Int.sign_eq_neg_one_of_neg hneg, Int.neg_one_mul]⟩
  · exact .inr ⟨Int.le_refl 0, rfl⟩
  · exact .inr ⟨Int.le_of_lt hpos, by rw [rounded, Int.sign_eq_one_of_pos hpos, Int.one_mul]⟩

theorem natAbs_rounded (n : Int) : (rounded n).natAbs = roundedNat n.natAbs := by
  rcases rounded_cases n with ⟨-, h⟩ | ⟨-, h⟩ <;> omega

theorem isDouble_rounded (n : Int) : IsDouble (rounded n) := by
  obtain ⟨m, j, hm, hround⟩ := exists_roundedNat n.natAbs
  exact ⟨m, j, hm, (natAbs_rounded n).trans hround⟩

theorem rounded_nearest (n : Int) (hv : IsDouble v) : (n - rounded n).natAbs ≤ (n - v).natAbs := by
  obtain ⟨m, j, hm, hsize⟩ := hv
  have hnear := roundedNat_nearest (n := n.natAbs) (j := j) hm
  rw [← hsize] at hnear
  have hsign : (n - rounded n).natAbs = ((n.natAbs : Int) - roundedNat n.natAbs).natAbs := by
    rcases rounded_cases n with ⟨hneg, h⟩ | ⟨hpos, h⟩ <;> omega
  omega

theorem rounded_eq_self (hn : IsDouble n) : rounded n = n := by
  have hnear := rounded_nearest n hn
  omega

theorem isDouble_of_natAbs_le (h : n.natAbs ≤ 2 ^ 53) : IsDouble n := by
  rcases Nat.lt_or_eq_of_le h with hless | hfull
  · exact ⟨n.natAbs, 0, hless, by rw [Nat.pow_zero, Nat.mul_one]⟩
  · exact ⟨2 ^ 52, 1, by decide, hfull⟩

-- Each of two numbers is nearer to what it is rounded to than to what the other one is rounded to.
theorem rounded_mono (h : a ≤ b) : rounded a ≤ rounded b := by
  have hleft := rounded_nearest a (isDouble_rounded b)
  have hright := rounded_nearest b (isDouble_rounded a)
  rcases Int.lt_or_eq_of_le h with hless | rfl
  · omega
  · exact Int.le_refl _

theorem rounded_lt_iff : rounded a < rounded b ↔ a < b ∧ rounded a ≠ rounded b := by
  constructor
  · intro h
    refine ⟨?_, Int.ne_of_lt h⟩
    by_contra hle
    exact Int.not_le_of_gt h (rounded_mono (Int.not_lt.mp hle))
  · rintro ⟨hless, hne⟩
    exact lt_of_le_of_ne (rounded_mono (Int.le_of_lt hless)) hne

end TemplateEngine.Decimal
