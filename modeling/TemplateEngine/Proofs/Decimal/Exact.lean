import Mathlib
import TemplateEngine.Proofs.Decimal.Digits
import TemplateEngine.Value

-- Natural numbers below 2 ^ 53 are doubles. Their digits are read as them, and they are found to be
-- whole again as long as they are below 9 * 10 ^ 15.
namespace TemplateEngine.Decimal

open Float.Model (UnpackedFloat Format)
open Float.Model.UnpackedFloat

-- The mantissas of doubles that are neither zero nor tiny.
structure Normal (m : Nat) : Prop where
  low : 2 ^ 52 ≤ m
  high : m < 2 ^ 53

variable {m n : Nat}

theorem Normal.pos (h : Normal m) : 0 < m := Nat.lt_of_lt_of_le (by decide) h.low

theorem Normal.log2_mul (h : Normal m) (j : Nat) : (m * 2 ^ j).log2 = 52 + j := by
  have hpos : 0 < 2 ^ j := Nat.pow_pos (by decide)
  rw [Nat.log2_eq_iff (Nat.mul_ne_zero (Nat.ne_of_gt h.pos) (Nat.ne_of_gt hpos))]
  refine ⟨?_, ?_⟩
  · rw [Nat.pow_add]
    exact Nat.mul_le_mul_right _ h.low
  · rw [show 52 + j + 1 = 53 + j by omega, Nat.pow_add]
    exact Nat.mul_lt_mul_of_pos_right h.high hpos

theorem exists_normal (hpos : 0 < n) (hlt : n < 2 ^ 53) : ∃ k, n.log2 + k = 52 ∧ Normal (n * 2 ^ k) := by
  have hlog : n.log2 ≤ 52 := by
    have := (Nat.log2_lt (Nat.ne_of_gt hpos)).mpr hlt
    omega
  have hlow := Nat.log2_self_le (Nat.ne_of_gt hpos)
  have hhigh := Nat.lt_log2_self (n := n)
  refine ⟨52 - n.log2, Nat.add_sub_cancel' hlog, ?_, ?_⟩
  · calc
      2 ^ 52 = 2 ^ n.log2 * 2 ^ (52 - n.log2) := by rw [← Nat.pow_add, Nat.add_sub_cancel' hlog]
      _ ≤ n * 2 ^ (52 - n.log2) := Nat.mul_le_mul_right _ hlow
  · calc
      n * 2 ^ (52 - n.log2) < 2 ^ (n.log2 + 1) * 2 ^ (52 - n.log2) :=
        Nat.mul_lt_mul_of_pos_right hhigh (Nat.pow_pos (by decide))
      _ = 2 ^ 53 := by
        rw [← Nat.pow_add]
        congr 1
        omega

theorem lt_of_normal {k : Nat} (hm : Normal (n * 2 ^ k)) : n < 2 ^ 53 :=
  Nat.lt_of_le_of_lt (Nat.le_mul_of_pos_right n (Nat.pow_pos (by decide))) hm.high

theorem targetExponent_eq {m : Nat} {e : Int} (h : -1021 ≤ Float.Model.totalExponent m e) :
    Format.binary64.targetExponent (Float.Model.totalExponent m e) = m.log2 + e - 52 := by
  have hbits : (Format.binary64.mantissaBits : Int) = 53 := rfl
  have hmin : Format.binary64.minExponent = -1074 := rfl
  unfold Format.targetExponent
  rw [hbits, hmin]
  unfold Float.Model.totalExponent at *
  omega

-- Bits beyond the mantissa that are all zero are shifted out without a trace.
theorem repeat_shiftRightOne (m k : Nat) :
    Nat.repeat ExtendedMantissa.shiftRightOne k ⟨m * 2 ^ k, false, false⟩ = ⟨m, false, false⟩ := by
  induction k generalizing m with
  | zero => simp [Nat.repeat]
  | succ k ih =>
    rw [Nat.repeat, Nat.pow_succ', ← Nat.mul_assoc, ih]
    simp [ExtendedMantissa.shiftRightOne]

theorem shiftToTargetExponent_exact (hm : Normal m) (j : Nat) {e : Int} (he : -1074 ≤ e + j) :
    shiftToTargetExponent Format.binary64 (m * 2 ^ j) e .exact = (⟨m, false, false⟩, e + j) := by
  have htotal : Float.Model.totalExponent (m * 2 ^ j) e = 53 + j + e := by
    unfold Float.Model.totalExponent
    rw [hm.log2_mul]
    omega
  have htarget := targetExponent_eq (m := m * 2 ^ j) (e := e) (by omega)
  have hshift : ((m * 2 ^ j).log2 + e - 52 - e).toNat = j := by
    rw [hm.log2_mul]
    omega
  unfold shiftToTargetExponent shiftToExponent
  dsimp only
  rw [htarget, hshift]
  exact Prod.ext (repeat_shiftRightOne m j) rfl

-- A number that has only zeros behind its first 53 bits is rounded to itself.
theorem roundWithAccuracy_exact (hm : Normal m) (j : Nat) {e : Int} (he : -1074 ≤ e + j) :
    roundWithAccuracy Format.binary64 .positive (m * 2 ^ j) e .exact =
      .finite .positive m (e + j) hm.pos := by
  have hfirst := shiftToTargetExponent_exact hm j he
  have hsecond := shiftToTargetExponent_exact hm 0 (e := e + j) (by omega)
  have hrounded : ExtendedMantissa.roundedMantissa ⟨m, false, false⟩ = m := rfl
  rw [Nat.pow_zero, Nat.mul_one] at hsecond
  unfold roundWithAccuracy
  simp [hfirst, hrounded, hsecond, Nat.ne_of_gt hm.pos]

theorem round_natural {k : Nat} (hk : n.log2 + k = 52) (hm : Normal (n * 2 ^ k)) :
    UnpackedFloat.round Format.binary64 .positive n 0 = .finite .positive (n * 2 ^ k) (-(k : Int)) hm.pos := by
  have htarget := targetExponent_eq (m := n) (e := 0) (by unfold Float.Model.totalExponent; omega)
  have hshift : (0 - ((n.log2 : Int) + 0 - 52)).toNat = k := by omega
  have hround := roundWithAccuracy_exact hm 0 (e := 0 - k) (by omega)
  rw [Nat.pow_zero, Nat.mul_one] at hround
  unfold UnpackedFloat.round decreaseExponent
  rw [htarget]
  dsimp only
  rw [hshift, Nat.shiftLeft_eq, hround]
  simp

theorem toNat_implicit (hm : Normal m) : (1#1 ++ BitVec.ofNat 52 m).toNat = m := by
  rw [BitVec.toNat_append, ← Nat.shiftLeft_add_eq_or_of_lt (BitVec.isLt _)]
  have hlow := hm.low
  have hhigh := hm.high
  simp only [BitVec.toNat_ofNat, Nat.shiftLeft_eq]
  omega

-- What is packed as a double is unpacked again.
theorem unpack_pack {sign : Sign} (hm : Normal m) {e : Int} (hlow : -1074 ≤ e) (hhigh : e ≤ 970) :
    unpack Format.binary64 (pack Format.binary64 (.finite sign m e hm.pos)) =
      .finite sign m e hm.pos := by
  obtain ⟨b, hb⟩ := Int.eq_ofNat_of_zero_le (show 0 ≤ e + 1075 by omega)
  have hbits : (e + Format.binary64.exponentBias + Format.binary64.mantissaBitsWithoutImplicit).toNat = b := by
    change (e + 1023 + 52).toNat = b
    omega
  have hlog : m.log2 + 1 = Format.binary64.mantissaBits := by
    have hlog := hm.log2_mul 0
    rw [Nat.pow_zero, Nat.mul_one] at hlog
    rw [hlog]
    rfl
  have hpack : pack Format.binary64 (.finite sign m e hm.pos) =
      packComponents Format.binary64 sign (BitVec.ofNat 11 b) (BitVec.ofNat 52 m) := by
    unfold pack
    dsimp only
    rw [hbits, if_neg (show ¬2 ^ 11 ≤ b + 1 by omega), if_pos hlog]
  have hfield : (BitVec.ofNat 11 b).toNat = b := by
    rw [BitVec.toNat_ofNat, Nat.mod_eq_of_lt (by omega)]
  have hones : BitVec.ofNat 11 b ≠ -1#11 := by
    intro h
    have hvalue : (BitVec.ofNat 11 b).toNat = 2047 := by rw [h]; rfl
    omega
  have hzero : BitVec.ofNat 11 b ≠ 0#11 := by
    intro h
    have hvalue : (BitVec.ofNat 11 b).toNat = 0 := by rw [h]; rfl
    omega
  have hexponent : (b : Int) - (Format.binary64.exponentBias + Format.binary64.mantissaBitsWithoutImplicit) =
      e := by
    change (b : Int) - (1023 + 52) = e
    omega
  rw [hpack]
  unfold unpack
  simp only [unpackMantissa_packComponents, unpackExponent_packComponents, unpackSign_packComponents,
    Sign.ofBitVec_toBitVec]
  rw [if_neg hones, if_neg hzero]
  simp only [hfield, hexponent, toNat_implicit hm]

-- The double of a natural number.
def ofNatural (n : Nat) : Float := n.toUInt64.toFloat

section Doubles

variable {k : Nat}

theorem ofNatural_eq (hk : n.log2 + k = 52) (hm : Normal (n * 2 ^ k)) :
    ofNatural n = .ofModel (.pack (.finite .positive (n * 2 ^ k) (-(k : Int)) hm.pos)) := by
  have hless := lt_of_normal hm
  have hword : n.toUInt64.toNat = n := UInt64.toNat_ofNat_of_lt' (Nat.lt_trans hless (by decide))
  have hpos : 0 < n := Nat.pos_of_mul_pos_right hm.pos
  have hcompare : compare (n : Int) 0 = .gt := by
    rw [Int.compare_eq_gt]
    omega
  have hround : UnpackedFloat.ofNat Format.binary64 n =
      .finite .positive (n * 2 ^ k) (-(k : Int)) hm.pos := by
    unfold UnpackedFloat.ofNat UnpackedFloat.ofInt UnpackedFloat.normalize
    rw [hcompare]
    exact round_natural hk hm
  unfold ofNatural UInt64.toFloat Float.Model.ofUInt64 UnpackedFloat.ofUInt64
  rw [hword, hround]

theorem unpack_ofNatural (hk : n.log2 + k = 52) (hm : Normal (n * 2 ^ k)) :
    (ofNatural n).toModel.unpack = .finite .positive (n * 2 ^ k) (-(k : Int)) hm.pos := by
  rw [ofNatural_eq hk hm]
  exact unpack_pack hm (by omega) (by omega)

theorem unpack_one :
    (Float.ofBits 0x3FF0000000000000).toModel.unpack = .finite .positive (2 ^ 52) (-52) (by decide) := by
  rfl

theorem ofNatural_mul_one (hk : n.log2 + k = 52) (hm : Normal (n * 2 ^ k)) :
    ofNatural n * Float.ofBits 0x3FF0000000000000 = ofNatural n := by
  have hround := roundWithAccuracy_exact hm 52 (e := -(k : Int) + -52) (by omega)
  change Float.ofModel (.pack (mul Format.binary64 (ofNatural n).toModel.unpack
    (Float.ofBits 0x3FF0000000000000).toModel.unpack)) = _
  have hexponent : -(k : Int) + -52 + (52 : Nat) = -(k : Int) := by omega
  rw [unpack_ofNatural hk hm, unpack_one, ofNatural_eq hk hm]
  simp only [mul]
  change Float.ofModel (.pack (roundWithAccuracy Format.binary64 .positive (n * 2 ^ k * 2 ^ 52) _ _)) = _
  rw [hround]
  simp only [hexponent]

theorem nearest_natural (hk : n.log2 + k = 52) (hm : Normal (n * 2 ^ k)) :
    nearest n 0 = ofNatural n := by
  have hpos : 0 < n := Nat.pos_of_mul_pos_right hm.pos
  have hless := lt_of_normal hm
  unfold nearest
  rw [if_neg (Nat.ne_of_gt hpos)]
  dsimp only
  rw [if_neg (by omega), if_neg (by omega)]
  unfold Float.ofScientific
  rw [dif_pos ⟨hless, by decide⟩]
  exact ofNatural_mul_one hk hm

theorem lt_iff {x y : Float} : x < y ↔ UnpackedFloat.lt x.toModel.unpack y.toModel.unpack = true := by
  change decide (x.toModel < y.toModel) = true ↔ _
  exact decide_eq_true_iff

theorem lt_iff_compare {x y : Float} :
    x < y ↔ UnpackedFloat.compare x.toModel.unpack y.toModel.unpack = some .lt := by
  rw [lt_iff]
  exact beq_iff_eq

theorem beq_iff_compare {x y : Float} :
    (x == y) = true ↔ UnpackedFloat.compare x.toModel.unpack y.toModel.unpack = some .eq := by
  change (UnpackedFloat.compare x.toModel.unpack y.toModel.unpack == some .eq) = true ↔ _
  exact beq_iff_eq

theorem ofNatural_not_negative (hk : n.log2 + k = 52) (hm : Normal (n * 2 ^ k)) :
    ¬ofNatural n < 0.0 := by
  have hzero : (0.0 : Float).toModel.unpack = .zero .positive := rfl
  rw [lt_iff, unpack_ofNatural hk hm, hzero]
  exact Bool.false_ne_true

theorem zero_le_ofNatural (hk : n.log2 + k = 52) (hm : Normal (n * 2 ^ k)) : 0.0 ≤ ofNatural n := by
  have hzero : (0.0 : Float).toModel.unpack = .zero .positive := rfl
  change decide ((0.0 : Float).toModel ≤ (ofNatural n).toModel) = true
  rw [decide_eq_true_iff]
  change UnpackedFloat.le (0.0 : Float).toModel.unpack (ofNatural n).toModel.unpack = true
  rw [hzero, unpack_ofNatural hk hm]
  rfl

theorem ofNatural_toUInt64 (hk : n.log2 + k = 52) (hm : Normal (n * 2 ^ k)) :
    (ofNatural n).toUInt64 = n.toUInt64 := by
  have hrounded : roundToInt .positive (n * 2 ^ k) (-(k : Int)) = n := by
    have hshift : (-(k : Int) - 0).toNat = 0 := by omega
    have hback : (0 - (-(k : Int) - (0 : Nat))).toNat = k := by omega
    unfold roundToInt decreaseExponent shiftToExponent
    dsimp only
    rw [hshift, hback, Nat.shiftLeft_eq, Nat.pow_zero, Nat.mul_one]
    change (((Nat.repeat ExtendedMantissa.shiftRightOne k ⟨n * 2 ^ k, false, false⟩).mantissa : Nat) : Int) = n
    rw [repeat_shiftRightOne]
  change UnpackedFloat.toUInt64 (ofNatural n).toModel.unpack = _
  rw [unpack_ofNatural hk hm]
  unfold UnpackedFloat.toUInt64 UnpackedFloat.toInt
  dsimp only
  rw [hrounded, Int.toNat_natCast]
  exact UInt64.ofNatClamp_eq_ofNat n (Nat.lt_trans (lt_of_normal hm) (by decide))

theorem ofNatural_lt_limit (hk : n.log2 + k = 52) (hm : Normal (n * 2 ^ k)) (hn : n < 9000000000000000) :
    ofNatural n < 9.0e15 := by
  have hlimit : (9.0e15 : Float).toModel.unpack = .finite .positive 9000000000000000 0 (by decide) := rfl
  have hcompare : (compare (-(k : Int)) 0).then (compare (n * 2 ^ k) 9000000000000000) = .lt := by
    cases k with
    | zero =>
      have hless : compare (n * 2 ^ 0) 9000000000000000 = .lt := by
        rw [Nat.pow_zero, Nat.mul_one, Nat.compare_eq_lt]
        exact hn
      rw [hless]
      rfl
    | succ k =>
      have hless : compare (-((k + 1 : Nat) : Int)) 0 = .lt := by
        rw [Int.compare_eq_lt]
        omega
      rw [hless]
      rfl
  rw [lt_iff, unpack_ofNatural hk hm, hlimit]
  change (some ((compare (-(k : Int)) 0).then (compare (n * 2 ^ k) 9000000000000000)) == some .lt) = true
  rw [hcompare]
  rfl

theorem ofNatural_beq_self (hk : n.log2 + k = 52) (hm : Normal (n * 2 ^ k)) :
    (ofNatural n == ofNatural n) = true := by
  change UnpackedFloat.beq (ofNatural n).toModel.unpack (ofNatural n).toModel.unpack = true
  rw [unpack_ofNatural hk hm]
  unfold UnpackedFloat.beq UnpackedFloat.compare
  simp

end Doubles

-- Whole numbers that the language counts as such come out of their doubles again.
theorem ofFloat_nearest (hn : n < 9000000000000000) : Value.ofFloat (nearest n 0) = .natural n := by
  rcases Nat.eq_zero_or_pos n with rfl | hpos
  · rfl
  · obtain ⟨k, hk, hm⟩ := exists_normal hpos (by omega)
    have hword : n.toUInt64.toNat = n :=
      UInt64.toNat_ofNat_of_lt' (Nat.lt_trans (lt_of_normal hm) (by decide))
    have hfloat : Number.ofFloat? (ofNatural n) = some (.integer n) := by
      unfold Number.ofFloat?
      simp only [ofNatural_not_negative hk hm, if_false, ofNatural_toUInt64 hk hm]
      rw [decide_eq_true (ofNatural_lt_limit hk hm hn), hword]
      change (if (true && (ofNatural n == ofNatural n)) = true then _ else _) = _
      rw [ofNatural_beq_self hk hm]
      rfl
    rw [nearest_natural hk hm, Value.ofFloat, hfloat]
    rfl

-- No name of a special double begins with a digit.
theorem sameLetters_digit {c : Char} (hc : c.isDigit = true) {first : Char} (hfirst : first ∈ ['i', 'n'])
    (word cs : List Char) : sameLetters (first :: word) (c :: cs) = false := by
  have hlower : c.toLower ≠ 'i' ∧ c.toLower ≠ 'n' :=
    forall_digit (P := fun d => d.toLower ≠ 'i' ∧ d.toLower ≠ 'n') (by decide) hc
  simp only [List.mem_cons, List.not_mem_nil, or_false] at hfirst
  rcases hfirst with rfl | rfl
  · simp [sameLetters, hlower.1]
  · simp [sameLetters, hlower.2]

-- What begins with a digit has no sign and is no name.
theorem read_of_digit {c : Char} (hc : c.isDigit = true) (cs : List Char) :
    read (c :: cs) = readUnsigned (c :: cs) := by
  have hinf : sameLetters "inf".toList (c :: cs) = false := sameLetters_digit hc (by decide) _ cs
  have hinfinity : sameLetters "infinity".toList (c :: cs) = false := sameLetters_digit hc (by decide) _ cs
  have hnan : sameLetters "nan".toList (c :: cs) = false := sameLetters_digit hc (by decide) _ cs
  unfold read
  split
  next negative body hsign =>
  split at hsign
  · next heq =>
    cases heq
    exact absurd hc (by decide)
  · next heq =>
    cases heq
    exact absurd hc (by decide)
  · cases hsign
    simp only [hinf, hinfinity, hnan, Bool.or_self, Bool.false_eq_true, if_false]
    exact Option.map_id'

-- The digits of a number are read as the double nearest to it.
theorem read_toDigits (n : Nat) : read (Nat.toDigits 10 n) = some (nearest n 0) := by
  obtain ⟨c, cs, hdigits, hall, -⟩ := exists_toDigits_eq_cons n
  have htake : ((c :: cs) ++ []).takeWhile Char.isDigit = c :: cs :=
    takeWhile_front hall fun _ h => nomatch h
  have hdrop : ((c :: cs) ++ []).dropWhile Char.isDigit = [] :=
    dropWhile_front hall fun _ h => nomatch h
  have hvalue : ofDigits (c :: cs) = n := by rw [← hdigits, ofDigits_toDigits]
  rw [List.append_nil] at htake hdrop
  rw [hdigits, read_of_digit (hall c (by simp))]
  unfold readUnsigned
  rw [htake, hdrop]
  simp [hvalue]

end TemplateEngine.Decimal
