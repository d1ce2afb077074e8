import TemplateEngine.Proofs.Decimal.Exact
import TemplateEngine.Proofs.Decimal.Rounding

-- The doubles of integers. An integer becomes the double that it is rounded to, and doubles of that
-- kind are ordered as the integers that they are.
namespace TemplateEngine.Decimal

open Float.Model (UnpackedFloat Format)
open Float.Model.UnpackedFloat

section Rounding

variable {m n : Nat}

-- What is shifted out of a mantissa stays visible in the two bits behind it, as far as it matters.
theorem repeat_shiftRightOne_bits (m k : Nat) :
    Nat.repeat ExtendedMantissa.shiftRightOne k ⟨m, false, false⟩ =
      ⟨m / 2 ^ k, decide (2 ^ k ≤ 2 * (m % 2 ^ k)),
        decide (2 * (m % 2 ^ k) ≠ 0 ∧ 2 * (m % 2 ^ k) ≠ 2 ^ k)⟩ := by
  induction k with
  | zero => simp [Nat.repeat, Nat.mod_one]
  | succ k ih =>
    have hdiv : m / 2 ^ k / 2 = m / 2 ^ (k + 1) := by rw [Nat.div_div_eq_div_mul, Nat.pow_succ]
    have hmod : m % 2 ^ (k + 1) = m % 2 ^ k + 2 ^ k * (m / 2 ^ k % 2) := Nat.mod_pow_succ
    have hpow : 2 ^ (k + 1) = 2 * 2 ^ k := Nat.pow_succ'
    have hrest := Nat.mod_lt m (Nat.two_pow_pos k)
    rw [Nat.repeat, ih, ExtendedMantissa.shiftRightOne, hdiv, hmod, hpow]
    -- Which bit is shifted out tells whether the rest reaches half a unit.
    generalize m % 2 ^ k = rest at hrest ⊢
    generalize 2 ^ k = unit at hrest ⊢
    rw [ExtendedMantissa.mk.injEq]
    refine ⟨rfl, ?_, ?_⟩ <;> rw [Bool.eq_iff_iff] <;>
      simp only [bne_iff_ne, decide_eq_true_eq, Bool.or_eq_true] <;>
      rcases Nat.mod_two_eq_zero_or_one (m / unit) with hbit | hbit <;>
      rw [hbit] <;> omega

theorem roundedMantissa_shifted (m k : Nat) :
    (Nat.repeat ExtendedMantissa.shiftRightOne k ⟨m, false, false⟩).roundedMantissa =
      roundHalfEven m (2 ^ k) := by
  rw [repeat_shiftRightOne_bits]
  unfold roundHalfEven
  have hrest := Nat.mod_lt m (Nat.two_pow_pos k)
  split
  · next h =>
    have hless := Nat.compare_eq_lt.mp h
    rw [decide_eq_false (by omega)]
    cases decide (2 * (m % 2 ^ k) ≠ 0 ∧ 2 * (m % 2 ^ k) ≠ 2 ^ k) <;> rfl
  · next h =>
    have heq := Nat.compare_eq_eq.mp h
    rw [decide_eq_true heq.ge, decide_eq_false (by simp [heq])]
    rfl
  · next h =>
    have hmore := Nat.compare_eq_gt.mp h
    rw [decide_eq_true (Nat.le_of_lt hmore), decide_eq_true (by omega)]
    rfl

theorem log2_mul_two_pow (hn : 0 < n) (j : Nat) : (n * 2 ^ j).log2 = n.log2 + j := by
  have hunit := Nat.two_pow_pos j
  rw [Nat.log2_eq_iff (Nat.ne_of_gt (Nat.mul_pos hn hunit))]
  refine ⟨?_, ?_⟩
  · rw [Nat.pow_add]
    exact Nat.mul_le_mul_right _ (Nat.log2_self_le (Nat.ne_of_gt hn))
  · rw [Nat.add_right_comm, Nat.pow_add]
    exact Nat.mul_lt_mul_of_pos_right Nat.lt_log2_self hunit

theorem shiftToTargetExponent_eq {e : Int} (h : -1021 ≤ Float.Model.totalExponent m e) :
    shiftToTargetExponent Format.binary64 m e .exact =
      (Nat.repeat ExtendedMantissa.shiftRightOne (m.log2 - 52) ⟨m, false, false⟩, e + (m.log2 - 52 : Nat)) := by
  have hshift : ((m.log2 : Int) + e - 52 - e).toNat = m.log2 - 52 := by omega
  unfold shiftToTargetExponent shiftToExponent
  dsimp only
  rw [targetExponent_eq h, hshift]
  rfl

-- Rounding carries over into one bit more at most, and then all other bits are zero.
theorem excess_of_le {r : Nat} (h : r ≤ 2 ^ 53) : excess r ≤ 1 ∧ r / 2 ^ excess r * 2 ^ excess r = r := by
  rcases Nat.lt_or_eq_of_le h with hless | rfl
  · rw [excess_eq_zero hless, Nat.pow_zero, Nat.div_one, Nat.mul_one]
    exact ⟨Nat.zero_le _, rfl⟩
  · have hone : excess (2 ^ 53) = 1 := by
      rw [excess, Nat.log2_two_pow]
    rw [hone]
    decide

-- A mantissa of 53 bits or more loses its excess.
theorem roundWithAccuracy_excess (sign : Sign) {e : Int} (hm : 2 ^ 52 ≤ m) (he : -1074 ≤ e) :
    ∃ (r : Nat) (carry : Nat) (hr : Normal r),
      roundWithAccuracy Format.binary64 sign m e .exact =
        .finite sign r (e + excess m + carry) hr.pos ∧
      carry ≤ 1 ∧ r * 2 ^ (excess m + carry) = roundedNat m := by
  have hlog : 52 ≤ m.log2 := (Nat.le_log2 (by omega)).mpr hm
  have hfirst := shiftToTargetExponent_eq (m := m) (e := e) (by unfold Float.Model.totalExponent; omega)
  rw [← excess] at hfirst
  obtain ⟨hlow, hhigh⟩ := roundHalfEven_excess_bounds hm
  obtain ⟨hcarry, hdiv⟩ := excess_of_le hhigh
  have hround := roundedMantissa_shifted m (excess m)
  rw [roundedNat]
  generalize roundHalfEven m (2 ^ excess m) = r at *
  have hlog' : 52 ≤ r.log2 := (Nat.le_log2 (by omega)).mpr hlow
  have hsecond := shiftToTargetExponent_eq (m := r) (e := e + excess m)
    (by unfold Float.Model.totalExponent; omega)
  rw [← excess, repeat_shiftRightOne_bits] at hsecond
  refine ⟨r / 2 ^ excess r, excess r, ⟨(div_excess hlow).1, (div_excess hlow).2⟩, ?_, hcarry, ?_⟩
  · unfold roundWithAccuracy
    simp only [hfirst, hround, hsecond]
    rw [dif_neg (Nat.ne_of_gt (Nat.lt_of_lt_of_le (by decide) (div_excess hlow).1))]
  · rw [Nat.add_comm, Nat.pow_add, ← Nat.mul_assoc, hdiv]

theorem excess_mul_two_pow (hn : 2 ^ 52 ≤ n) (j : Nat) : excess (n * 2 ^ j) = excess n + j := by
  have hlog : 52 ≤ n.log2 := (Nat.le_log2 (by omega)).mpr hn
  rw [excess, excess, log2_mul_two_pow (by omega)]
  omega

theorem roundedNat_mul_two_pow (hn : 2 ^ 52 ≤ n) (j : Nat) : roundedNat (n * 2 ^ j) = roundedNat n * 2 ^ j := by
  rw [roundedNat, excess_mul_two_pow hn, Nat.pow_add, roundHalfEven_mul _ _ (Nat.two_pow_pos j), roundedNat,
    Nat.mul_assoc]

end Rounding

section Naturals

variable {n : Nat}

-- In the model an integer of more than 53 bits is multiplied by a power of ten, which here is one.
theorem ofNat_eq_round (hn : 2 ^ 53 ≤ n) :
    Float.ofNat n = .ofModel (.pack (roundWithAccuracy Format.binary64 .positive (n * 2 ^ 53) (-53) .exact)) := by
  change Float.ofScientific n false 0 = _
  unfold Float.ofScientific
  rw [dif_neg (by omega)]
  simp only [Bool.false_eq_true, if_false]
  change Float.ofModel (.pack (UnpackedFloat.ofScientific Format.binary64 n 0)) = _
  have hbits : Format.binary64.mantissaBits = 53 := rfl
  have hrange : ¬(0 : Int) < -(2 ^ Format.binary64.exponentBits + (n.log2 : Int)) := by
    change ¬(0 : Int) < -(2 ^ 11 + (n.log2 : Int))
    omega
  unfold UnpackedFloat.ofScientific
  rw [dif_neg (by omega), if_neg (by decide), if_neg hrange, if_pos (by decide)]
  simp only [hbits, UnpackedFloat.mul, Nat.shiftLeft_eq, Int.toNat_zero, Nat.pow_zero, Nat.mul_one, Int.add_zero]
  rfl

-- The double of a positive integer, in units of the last bit that doubles near one have.
theorem exists_unpack_ofNat (hpos : 0 < n) (hn : n < 2 ^ 64) :
    ∃ (m : Nat) (e : Int) (hm : Normal m), (Float.ofNat n).toModel.unpack = .finite .positive m e hm.pos ∧
      -52 ≤ e ∧ e ≤ 970 ∧ m * 2 ^ (e + 52).toNat = roundedNat n * 2 ^ 52 := by
  rcases Nat.lt_or_ge n (2 ^ 53) with hless | hmore
  · obtain ⟨k, hk, hm⟩ := exists_normal hpos hless
    have hsmall : Float.ofNat n = ofNatural n := by
      change Float.ofScientific n false 0 = _
      unfold Float.ofScientific
      rw [dif_pos ⟨hless, by decide⟩]
      exact ofNatural_mul_one hk hm
    refine ⟨n * 2 ^ k, -k, hm, ?_, by omega, by omega, ?_⟩
    · rw [hsmall]
      exact unpack_ofNatural hk hm
    · have hshift : k + (-(k : Int) + 52).toNat = 52 := by omega
      rw [roundedNat_of_lt hless, Nat.mul_assoc, ← Nat.pow_add, hshift]
  · have hlog : n.log2 < 64 := (Nat.log2_lt (by omega)).mpr hn
    have hexcess : excess n ≤ 11 := by
      unfold excess
      omega
    obtain ⟨m, carry, hm, hround, hcarry, hsize⟩ :=
      roundWithAccuracy_excess (m := n * 2 ^ 53) .positive (e := -53) (by omega) (by decide)
    rw [excess_mul_two_pow (by omega)] at hround hsize
    rw [roundedNat_mul_two_pow (by omega)] at hsize
    generalize hexponent : -53 + ((excess n + 53 : Nat) : Int) + carry = e at hround
    refine ⟨m, e, hm, ?_, by omega, by omega, ?_⟩
    · rw [ofNat_eq_round hmore, hround]
      exact unpack_pack hm (by omega) (by omega)
    · have hshift : (e + 52).toNat = excess n + carry + 52 := by omega
      have hcommon : m * 2 ^ (excess n + 53 + carry) = m * 2 ^ (excess n + carry + 52) * 2 := by
        rw [Nat.mul_assoc, ← Nat.pow_succ]
        congr 2
        omega
      rw [hshift]
      omega

end Naturals

section Order

-- A double that is an integer, positive zero and negative zero alike.
inductive Stands : UnpackedFloat → Int → Prop
  | zero (sign : Sign) : Stands (.zero sign) 0
  | finite (sign : Sign) {m v : Nat} {e : Int} (hm : Normal m) (he : -52 ≤ e)
      (hsize : m * 2 ^ (e + 52).toNat = v * 2 ^ 52) : Stands (.finite sign m e hm.pos) (sign.apply v)

variable {m n v w : Nat} {e f : Int}

theorem size_lt_of_exponent_lt (hm : Normal m) (hn : Normal n) (he : -52 ≤ e) (h : e < f) :
    m * 2 ^ (e + 52).toNat < n * 2 ^ (f + 52).toNat := by
  have hstep : (e + 52).toNat + 1 ≤ (f + 52).toNat := by omega
  calc
    m * 2 ^ (e + 52).toNat < 2 ^ 53 * 2 ^ (e + 52).toNat :=
      Nat.mul_lt_mul_of_pos_right hm.high (Nat.two_pow_pos _)
    _ = 2 ^ 52 * 2 ^ ((e + 52).toNat + 1) := by
      rw [← Nat.pow_add, ← Nat.pow_add]
      congr 1
      omega
    _ ≤ 2 ^ 52 * 2 ^ (f + 52).toNat := Nat.mul_le_mul_left _ (Nat.pow_le_pow_right (by decide) hstep)
    _ ≤ n * 2 ^ (f + 52).toNat := Nat.mul_le_mul_right _ hn.low

-- Exponents first and mantissas after them are compared as the numbers that they make up.
theorem compare_normal (hm : Normal m) (hn : Normal n) (he : -52 ≤ e) (hf : -52 ≤ f)
    (hv : m * 2 ^ (e + 52).toNat = v * 2 ^ 52) (hw : n * 2 ^ (f + 52).toNat = w * 2 ^ 52) :
    (compare e f).then (compare m n) = compare (v : Int) (w : Int) := by
  rcases Int.lt_trichotomy e f with hless | rfl | hmore
  · have hsize := size_lt_of_exponent_lt hm hn he hless
    rw [Int.compare_eq_lt.mpr hless, Int.compare_eq_lt.mpr (by omega)]
    rfl
  · have hunit := Nat.two_pow_pos (e + 52).toNat
    rw [Int.compare_eq_eq.mpr rfl]
    rcases Nat.lt_trichotomy m n with hless | rfl | hmore
    · have hsize := Nat.mul_lt_mul_of_pos_right hless hunit
      rw [Nat.compare_eq_lt.mpr hless, Int.compare_eq_lt.mpr (by omega)]
      rfl
    · rw [Nat.compare_eq_eq.mpr rfl, Int.compare_eq_eq.mpr (by omega)]
      rfl
    · have hsize := Nat.mul_lt_mul_of_pos_right hmore hunit
      rw [Nat.compare_eq_gt.mpr hmore, Int.compare_eq_gt.mpr (by omega)]
      rfl
  · have hsize := size_lt_of_exponent_lt hn hm hf hmore
    rw [Int.compare_eq_gt.mpr hmore, Int.compare_eq_gt.mpr (by omega)]
    rfl

theorem pos_of_size (hm : Normal m) (hv : m * 2 ^ (e + 52).toNat = v * 2 ^ 52) : 0 < v := by
  have hsize := Nat.mul_pos hm.pos (Nat.two_pow_pos (e + 52).toNat)
  omega

theorem Stands.compare_eq {x y : UnpackedFloat} {a b : Int} (hx : Stands x a) (hy : Stands y b) :
    UnpackedFloat.compare x y = some (compare a b) := by
  cases hx with
  | zero =>
    cases hy with
    | zero => rfl
    | finite sign hn _ hw =>
      have hpos := pos_of_size hn hw
      cases sign with
      | negative => exact congrArg some (Int.compare_eq_gt.mpr (by simp only [Sign.apply]; omega)).symm
      | positive => exact congrArg some (Int.compare_eq_lt.mpr (by simp only [Sign.apply]; omega)).symm
  | finite sign hm he hv =>
    have hpos := pos_of_size hm hv
    cases hy with
    | zero =>
      cases sign with
      | negative => exact congrArg some (Int.compare_eq_lt.mpr (by simp only [Sign.apply]; omega)).symm
      | positive => exact congrArg some (Int.compare_eq_gt.mpr (by simp only [Sign.apply]; omega)).symm
    | finite other hn hf hw =>
      have hpos' := pos_of_size hn hw
      have hsizes := compare_normal hm hn he hf hv hw
      cases sign with
      | negative =>
        cases other with
        | negative =>
          change some ((compare _ _).then (compare _ _)).swap = some (compare (-_ : Int) (-_))
          rw [hsizes, Int.compare_swap, Int.compare_eq_ite_lt, Int.compare_eq_ite_lt]
          simp only [Int.neg_lt_neg_iff]
        | positive => exact congrArg some (Int.compare_eq_lt.mpr (by simp only [Sign.apply]; omega)).symm
      | positive =>
        cases other with
        | negative => exact congrArg some (Int.compare_eq_gt.mpr (by simp only [Sign.apply]; omega)).symm
        | positive => exact congrArg some hsizes

end Order

-- An integer is the double that it is rounded to.
theorem stands_ofInt {a : Int} (ha : a.natAbs < 2 ^ 64) : Stands (Float.ofInt a).toModel.unpack (rounded a) := by
  rcases Int.lt_trichotomy a 0 with hneg | rfl | hpos
  · obtain ⟨k, rfl⟩ := Int.eq_negSucc_of_lt_zero hneg
    rw [Int.natAbs_negSucc] at ha
    obtain ⟨m, e, hm, hunpack, hlow, hhigh, hsize⟩ := exists_unpack_ofNat (Nat.succ_pos k) ha
    have hback : (Float.ofInt (Int.negSucc k)).toModel.unpack = .finite .negative m e hm.pos := by
      change UnpackedFloat.unpack Format.binary64
        (UnpackedFloat.pack Format.binary64 (Float.ofNat (k + 1)).toModel.unpack.neg) = _
      rw [hunpack]
      exact unpack_pack hm (by omega) hhigh
    have hrounded : rounded (Int.negSucc k) = Sign.negative.apply (roundedNat (k + 1) : Nat) := by
      rw [rounded, Int.sign_negSucc, Int.neg_one_mul, Int.natAbs_negSucc]
      rfl
    rw [hback, hrounded]
    exact .finite .negative hm hlow hsize
  · exact .zero .positive
  · obtain ⟨k, rfl⟩ := Int.eq_ofNat_of_zero_le (Int.le_of_lt hpos)
    obtain ⟨m, e, hm, hunpack, hlow, -, hsize⟩ := exists_unpack_ofNat (n := k) (by omega) ha
    have hfront : (Float.ofInt (k : Int)).toModel.unpack = .finite .positive m e hm.pos := hunpack
    have hrounded : rounded (k : Int) = Sign.positive.apply (roundedNat k : Nat) := by
      rw [rounded, Int.sign_eq_one_of_pos hpos, Int.one_mul]
      rfl
    rw [hfront, hrounded]
    exact .finite .positive hm hlow hsize

theorem ofInt_lt_iff {a b : Int} (ha : a.natAbs < 2 ^ 64) (hb : b.natAbs < 2 ^ 64) :
    Float.ofInt a < Float.ofInt b ↔ rounded a < rounded b := by
  rw [lt_iff_compare, (stands_ofInt ha).compare_eq (stands_ofInt hb), Option.some_inj, Int.compare_eq_lt]

theorem ofInt_beq_iff {a b : Int} (ha : a.natAbs < 2 ^ 64) (hb : b.natAbs < 2 ^ 64) :
    (Float.ofInt a == Float.ofInt b) = true ↔ rounded a = rounded b := by
  rw [beq_iff_compare, (stands_ofInt ha).compare_eq (stands_ofInt hb), Option.some_inj, Int.compare_eq_eq]

end TemplateEngine.Decimal
