import Mathlib
import MonitorExport.Decimal.Shortest

/-!
# Integers as floats

A float keeps 53 binary digits. An integer below two to the 53 is held exactly; a greater one is rounded to a float
that is no less.
-/

namespace MonitorExport.Decimal

open Float.Model (Format totalExponent UnpackedFloat)
open Float.Model.UnpackedFloat

variable {sign : Sign} {m n k : Nat} {e : Int}

/-! ## Rounding -/

/-- A mantissa of 53 binary digits. -/
def IsFull (m : Nat) : Prop := 2 ^ 52 ≤ m ∧ m < 2 ^ 53

theorem IsFull.pos (h : IsFull m) : 0 < m := Nat.lt_of_lt_of_le (by decide) h.1

theorem IsFull.log2 (h : IsFull m) : m.log2 = 52 := (Nat.log2_eq_iff (Nat.ne_of_gt h.pos)).mpr h

theorem log2_mul_two_pow (h : 0 < m) (k : Nat) : (m * 2 ^ k).log2 = m.log2 + k := by
  obtain ⟨hlow, hhigh⟩ := (Nat.log2_eq_iff (Nat.ne_of_gt h)).mp rfl
  refine (Nat.log2_eq_iff (Nat.ne_of_gt (Nat.mul_pos h (Nat.two_pow_pos k)))).mpr ⟨?_, ?_⟩
  · rw [Nat.pow_add]
    exact Nat.mul_le_mul_right _ hlow
  · rw [Nat.add_right_comm, Nat.pow_add]
    exact Nat.mul_lt_mul_of_pos_right hhigh (Nat.two_pow_pos k)

/-- The exponent to which 53 digits of a mantissa are kept. -/
theorem target_eq (h : -1074 ≤ e + m.log2 - 52) :
    Format.binary64.targetExponent (totalExponent m e) = e + m.log2 - 52 := by
  simp only [Format.targetExponent, totalExponent, Format.mantissaBits, Format.minExponent]
  omega

theorem mantissa_shiftRight (em : ExtendedMantissa) (count : Nat) :
    (em >>> count).mantissa = em.mantissa / 2 ^ count := by
  induction count with
  | zero => simp [HShiftRight.hShiftRight, Nat.repeat]
  | succ count ih =>
      have hstep : (em >>> (count + 1)).mantissa = (em >>> count).mantissa / 2 := rfl
      rw [hstep, ih, Nat.div_div_eq_div_mul, Nat.pow_succ]

/-- Zeros are shifted out without a rest. -/
theorem shiftRight_exact (m count : Nat) :
    ExtendedMantissa.ofMantissaAndAccuracy (m * 2 ^ count) .exact >>> count =
      ExtendedMantissa.ofMantissaAndAccuracy m .exact := by
  induction count generalizing m with
  | zero => simp [HShiftRight.hShiftRight, Nat.repeat]
  | succ count ih =>
      have hstep : ∀ em : ExtendedMantissa, em >>> (count + 1) = (em >>> count).shiftRightOne := fun _ => rfl
      rw [hstep, Nat.pow_succ', ← Nat.mul_assoc, ih]
      simp [ExtendedMantissa.shiftRightOne, ExtendedMantissa.ofMantissaAndAccuracy]

/-- A mantissa without its last `k` digits, rounded. -/
def rounded (m k : Nat) : Nat :=
  (ExtendedMantissa.ofMantissaAndAccuracy m .exact >>> k).roundedMantissa

theorem rounded_bounds (m k : Nat) : m / 2 ^ k ≤ rounded m k ∧ rounded m k ≤ m / 2 ^ k + 1 := by
  have hbounds : ∀ em : ExtendedMantissa, em.mantissa ≤ em.roundedMantissa ∧ em.roundedMantissa ≤ em.mantissa + 1 := by
    rintro ⟨mantissa, roundBit, stickyBit⟩
    cases roundBit <;> cases stickyBit <;>
      simp only [ExtendedMantissa.roundedMantissa, ExtendedMantissa.accuracy, Accuracy.roundToNearestEven] <;> omega
  have hm : (ExtendedMantissa.ofMantissaAndAccuracy m .exact >>> k).mantissa = m / 2 ^ k := mantissa_shiftRight _ _
  exact hm ▸ hbounds _

theorem rounded_exact (m k : Nat) : rounded (m * 2 ^ k) k = m := by
  rw [rounded, shiftRight_exact]
  rfl

theorem div_full (hlog : m.log2 = 52 + k) : IsFull (m / 2 ^ k) := by
  have hne : m ≠ 0 := fun h => by
    rw [h, Nat.log2_zero] at hlog
    omega
  obtain ⟨hlow, hhigh⟩ := (Nat.log2_eq_iff hne).mp hlog
  constructor
  · rw [Nat.le_div_iff_mul_le (Nat.two_pow_pos k), ← Nat.pow_add]
    exact hlow
  · rw [Nat.div_lt_iff_lt_mul (Nat.two_pow_pos k), ← Nat.pow_add]
    exact (show 53 + k = 52 + k + 1 by omega) ▸ hhigh

theorem shift_eq (hlog : m.log2 = 52 + k) (he : -1074 ≤ e + k) :
    shiftToTargetExponent Format.binary64 m e .exact =
      (ExtendedMantissa.ofMantissaAndAccuracy m .exact >>> k, e + k) := by
  have htarget : Format.binary64.targetExponent (totalExponent m e) = e + k := by
    rw [target_eq (by omega)]
    omega
  have hcount : (e + k - e).toNat = k := by omega
  rw [shiftToTargetExponent, htarget, shiftToExponent, hcount]

/-- Rounding shifts once more if a carry made the mantissa too long. -/
theorem round_eq (hlog : m.log2 = 52 + k) (he : -1074 ≤ e + k) {j : Nat} (hj : (rounded m k).log2 = 52 + j)
    (hpos : 0 < rounded m k / 2 ^ j) :
    roundWithAccuracy Format.binary64 sign m e .exact = .finite sign (rounded m k / 2 ^ j) (e + k + j) hpos := by
  have hrounded : (ExtendedMantissa.ofMantissaAndAccuracy m .exact >>> k).roundedMantissa = rounded m k := rfl
  have hmantissa : (ExtendedMantissa.ofMantissaAndAccuracy (rounded m k) .exact >>> j).mantissa = rounded m k / 2 ^ j :=
    mantissa_shiftRight _ _
  unfold roundWithAccuracy
  simp only [shift_eq hlog he, hrounded, shift_eq hj (show -1074 ≤ e + k + j by omega), hmantissa,
    dif_neg (Nat.ne_of_gt hpos)]

/-- Zeros at the end are dropped. -/
theorem round_exact (hfull : IsFull m) (he : -1074 ≤ e) (k : Nat) :
    roundWithAccuracy Format.binary64 sign (m * 2 ^ k) (e - k) .exact = .finite sign m e hfull.pos := by
  have hlog : (m * 2 ^ k).log2 = 52 + k := by
    rw [log2_mul_two_pow hfull.pos, hfull.log2]
  have hrounded : rounded (m * 2 ^ k) k = m := rounded_exact m k
  have hj : (rounded (m * 2 ^ k) k).log2 = 52 + 0 := by rw [hrounded, hfull.log2]
  have hround := @round_eq sign _ k (e - k) hlog (by omega) 0 hj (by simpa [hrounded] using hfull.pos)
  simpa [hrounded] using hround

/-- Digits are dropped from a long mantissa, as many as are too many. -/
theorem exists_round (hlog : m.log2 = 52 + k) (he : -1074 ≤ e + k) : ∃ m' e' hpos,
    roundWithAccuracy Format.binary64 sign m e .exact = .finite sign m' e' hpos ∧ IsFull m' ∧ e + k ≤ e' := by
  obtain ⟨hlow, hhigh⟩ := rounded_bounds m k
  obtain ⟨hfull, hfull'⟩ := div_full hlog
  by_cases hcarry : rounded m k = 2 ^ 53
  · have hj : (rounded m k).log2 = 52 + 1 := by rw [hcarry]; rfl
    have hm : rounded m k / 2 ^ 1 = 2 ^ 52 := by rw [hcarry]; rfl
    exact ⟨_, _, _, round_eq hlog he hj (hm ▸ Nat.two_pow_pos 52), hm ▸ ⟨le_refl _, by decide⟩, by omega⟩
  · have hkept : IsFull (rounded m k) := ⟨by omega, by omega⟩
    have hj : (rounded m k).log2 = 52 + 0 := hkept.log2
    exact ⟨_, _, _, round_eq hlog he hj (by simpa using hkept.pos), by simpa using hkept, by omega⟩

/-! ## Packing -/

/-- The first digit of a mantissa is not stored. -/
theorem toNat_stored (b : BitVec 52) : (1#1 ++ b).toNat = 2 ^ 52 + b.toNat := by
  rw [BitVec.toNat_append]
  show 2 ^ 52 * 1 ||| b.toNat = _
  rw [← Nat.two_pow_add_eq_or_of_lt b.isLt, Nat.mul_one]

theorem unpack_pack_full (hfull : IsFull m) (he : -1074 ≤ e) (he' : e ≤ 971) :
    (Float.Model.pack (.finite sign m e hfull.pos)).unpack = .finite sign m e hfull.pos := by
  have hbiased : (e + Format.binary64.exponentBias + Format.binary64.mantissaBitsWithoutImplicit).toNat =
      (e + 1075).toNat := by
    show (e + 1023 + 52).toNat = _
    omega
  have hrange : ¬ 2 ^ Format.binary64.exponentBits ≤ (e + 1075).toNat + 1 := by
    show ¬ 2048 ≤ _
    omega
  have hlog : m.log2 + 1 = Format.binary64.mantissaBits := by rw [hfull.log2]; rfl
  have hexponent : (BitVec.ofNat 11 (e + 1075).toNat).toNat = (e + 1075).toNat := by
    rw [BitVec.toNat_ofNat]
    omega
  have hmantissa : (1#1 ++ BitVec.ofNat 52 m).toNat = m := by
    obtain ⟨hlow, hhigh⟩ := hfull
    rw [toNat_stored, BitVec.toNat_ofNat]
    omega
  show unpack Format.binary64 (pack Format.binary64 (.finite sign m e hfull.pos)) = _
  simp only [pack, hbiased, if_neg hrange, if_pos hlog]
  have hne (b : BitVec 11) (hb : b.toNat ≠ (e + 1075).toNat) : BitVec.ofNat 11 (e + 1075).toNat ≠ b := fun h =>
    hb (h ▸ hexponent)
  have hall := hne (-1#_) (show 2047 ≠ _ by omega)
  have hzero := hne 0#_ (show 0 ≠ _ by omega)
  simp only [unpack, unpackMantissa_packComponents, unpackExponent_packComponents, unpackSign_packComponents,
    Sign.ofBitVec_toBitVec, if_neg hall, if_neg hzero, hexponent, hmantissa,
    UnpackedFloat.finite.injEq, true_and]
  show ((e + 1075).toNat : Int) - (1023 + 52) = e
  omega

theorem unpack_pack_overflow (hfull : IsFull m) (he : 972 ≤ e) :
    (Float.Model.pack (.finite sign m e hfull.pos)).unpack = .infinity sign := by
  have hrange : 2 ^ Format.binary64.exponentBits ≤
      (e + Format.binary64.exponentBias + Format.binary64.mantissaBitsWithoutImplicit).toNat + 1 := by
    show 2048 ≤ (e + 1023 + 52).toNat + 1
    omega
  show unpack Format.binary64 (pack Format.binary64 (.finite sign m e hfull.pos)) = _
  simp only [pack, if_pos hrange, packedInfinity, unpack, unpackMantissa_packComponents,
    unpackExponent_packComponents, unpackSign_packComponents, Sign.ofBitVec_toBitVec, if_true]
  rfl

/-! ## Numbers -/

/-- What holds a number of a sign: the number itself if it has at most 53 digits, else a number or an infinity that is
no less than two to the 53. -/
inductive Holds : Sign → Nat → UnpackedFloat → Prop
  | zero : Holds .positive 0 (.zero .positive)
  | exact {sign : Sign} {n m k : Nat} (hn : 0 < n) (hfull : IsFull m) (hk : k ≤ 52) (hm : m = n * 2 ^ k) :
      Holds sign n (.finite sign m (-k) hfull.pos)
  | great {sign : Sign} {n m : Nat} {e : Int} (hn : 2 ^ 53 ≤ n) (hfull : IsFull m) (he : 1 ≤ e) (he' : e ≤ 971) :
      Holds sign n (.finite sign m e hfull.pos)
  | infinite {sign : Sign} {n : Nat} (hn : 2 ^ 53 ≤ n) : Holds sign n (.infinity sign)

theorem round_ofNat (hn : 0 < n) (h : n < 2 ^ 53) (hfull : IsFull (n * 2 ^ (52 - n.log2))) :
    UnpackedFloat.round Format.binary64 .positive n 0 =
      .finite .positive (n * 2 ^ (52 - n.log2)) (-(52 - n.log2 : Nat)) hfull.pos := by
  have hlog : n.log2 < 53 := (Nat.log2_lt (Nat.ne_of_gt hn)).mpr h
  have htarget : Format.binary64.targetExponent (totalExponent n 0) = -(52 - n.log2 : Nat) := by
    rw [target_eq (by omega)]
    omega
  have hcount : (0 - -((52 - n.log2 : Nat) : Int)).toNat = 52 - n.log2 := by omega
  have hround := @round_exact .positive _ (-(52 - n.log2 : Nat)) hfull (by omega) 0
  rw [UnpackedFloat.round, htarget, decreaseExponent, hcount]
  simpa [Nat.shiftLeft_eq] using hround

theorem isFull_mul (hn : 0 < n) (h : n < 2 ^ 53) : IsFull (n * 2 ^ (52 - n.log2)) := by
  have hlog : n.log2 < 53 := (Nat.log2_lt (Nat.ne_of_gt hn)).mpr h
  have hfull : (n * 2 ^ (52 - n.log2)).log2 = 52 := by
    rw [log2_mul_two_pow hn]
    omega
  exact (Nat.log2_eq_iff (Nat.ne_of_gt (Nat.mul_pos hn (Nat.two_pow_pos _)))).mp hfull

theorem unpack_ofUInt64 (hn : 0 < n) (h : n < 2 ^ 53) :
    (Float.Model.ofUInt64 n.toUInt64).unpack =
      .finite .positive (n * 2 ^ (52 - n.log2)) (-(52 - n.log2 : Nat)) (isFull_mul hn h).pos := by
  have hword : n.toUInt64.toNat = n := UInt64.toNat_ofNat_of_lt' (Nat.lt_trans h (by decide))
  have hpositive : compare (n : Int) 0 = .gt := Int.compare_eq_gt.mpr (by omega)
  have hfloat : ofUInt64 Format.binary64 n.toUInt64 = UnpackedFloat.round Format.binary64 .positive n 0 := by
    simp only [ofUInt64, ofNat, ofInt, UnpackedFloat.normalize, hword, hpositive, Int.toNat_natCast]
  rw [Float.Model.ofUInt64, hfloat, round_ofNat hn h (isFull_mul hn h)]
  exact unpack_pack_full (isFull_mul hn h) (by omega) (by omega)

theorem mul_one_full (hfull : IsFull m) (he : -1074 ≤ e) :
    mul Format.binary64 (.finite .positive m e hfull.pos) ((1.0 : Float).toModel.unpack) =
      .finite .positive m e hfull.pos :=
  round_exact hfull he 52

theorem unpack_ofNat_great (h : 2 ^ 53 ≤ n) : (Float.ofNat n).toModel.unpack =
    (Float.Model.pack (roundWithAccuracy Format.binary64 .positive (n * 2 ^ 53) (-53) .exact)).unpack := by
  have hne : n ≠ 0 := by omega
  have hfloat : (Float.ofNat n).toModel = Float.Model.ofScientific n 0 := by
    show (Float.ofScientific n false 0).toModel = _
    rw [Float.ofScientific, dif_neg (by omega)]
    rfl
  have hsmall : ¬ (0 : Int) > 2 ^ Format.binary64.exponentBits := by decide
  have hlarge : ¬ (0 : Int) < -((2 ^ Format.binary64.exponentBits : Int) + n.log2) := by
    show ¬ (0 : Int) < -(2048 + n.log2)
    omega
  have hproduct : n * 2 ^ Format.binary64.mantissaBits * 10 ^ Int.toNat 0 = n * 2 ^ 53 := Nat.mul_one _
  rw [hfloat, Float.Model.ofScientific, ofScientific, dif_neg hne, if_neg hsmall, if_neg hlarge, if_pos (le_refl 0), mul,
    Nat.shiftLeft_eq, hproduct]
  rfl

theorem holds_ofNat (hn : 0 < n) : Holds .positive n (Float.ofNat n).toModel.unpack := by
  by_cases h : n < 2 ^ 53
  · have hfloat : Float.ofNat n = n.toUInt64.toFloat * 1.0 := by
      show Float.ofScientific n false 0 = _
      rw [Float.ofScientific, dif_pos ⟨h, by decide⟩]
      rfl
    have hfull := isFull_mul hn h
    have hproduct : (Float.ofNat n).toModel = Float.Model.pack
        (.finite .positive (n * 2 ^ (52 - n.log2)) (-(52 - n.log2 : Nat)) hfull.pos) := by
      rw [hfloat, ← mul_one_full hfull (by omega), ← unpack_ofUInt64 hn h]
      rfl
    rw [hproduct, unpack_pack_full hfull (by omega) (by omega)]
    exact .exact hn hfull (by omega) rfl
  · have hlog : 53 ≤ n.log2 := (Nat.le_log2 (Nat.ne_of_gt hn)).mpr (Nat.not_lt.mp h)
    have hlong : (n * 2 ^ 53).log2 = 52 + (n.log2 + 1) := by
      rw [log2_mul_two_pow hn]
      omega
    obtain ⟨m, e, hpos, hround, hfull, he⟩ := @exists_round .positive _ _ (-53) hlong (by omega)
    rw [unpack_ofNat_great (Nat.not_lt.mp h), hround]
    by_cases hrange : e ≤ 971
    · rw [unpack_pack_full hfull (by omega) hrange]
      exact .great (Nat.not_lt.mp h) hfull (by omega) hrange
    · rw [unpack_pack_overflow hfull (by omega)]
      exact .infinite (Nat.not_lt.mp h)

/-- The sign by which a float tells an integer other than zero. -/
def signOf : Int → Sign
  | .ofNat _ => .positive
  | .negSucc _ => .negative

theorem Holds.neg {u : UnpackedFloat} (hn : 0 < n) (h : Holds .positive n u) :
    Holds .negative n (Float.Model.pack u.neg).unpack := by
  cases h with
  | zero => omega
  | @exact _ _ m k _ hfull hk hm =>
      show Holds .negative n (Float.Model.pack (.finite .negative m (-k) hfull.pos)).unpack
      rw [unpack_pack_full hfull (by omega) (by omega)]
      exact .exact hn hfull hk hm
  | @great _ _ m e hn hfull he he' =>
      show Holds .negative n (Float.Model.pack (.finite .negative m e hfull.pos)).unpack
      rw [unpack_pack_full hfull (by omega) he']
      exact .great hn hfull he he'
  | infinite hn => exact .infinite hn

theorem holds_ofInt (n : Int) : Holds (signOf n) n.natAbs (Float.ofInt n).toModel.unpack := by
  cases n with
  | ofNat n =>
      rcases Nat.eq_zero_or_pos n with rfl | hn
      · exact .zero
      · exact holds_ofNat hn
  | negSucc n => exact (holds_ofNat n.succ_pos).neg n.succ_pos

/-! ## Equality -/

theorem beq_iff {x y : Float} : (x == y) = true ↔ x.toModel.unpack ≠ .notANumber ∧ y.toModel.unpack ≠ .notANumber ∧
    (x.toModel.unpack = y.toModel.unpack ∨
      x.toModel.unpack = .zero .positive ∧ y.toModel.unpack = .zero .negative ∨
        x.toModel.unpack = .zero .negative ∧ y.toModel.unpack = .zero .positive) :=
  beq_iff_ne_notANumber_and_eq _ _

theorem Holds.ne_notANumber {u : UnpackedFloat} (h : Holds sign n u) : u ≠ .notANumber := by
  cases h <;> exact nofun

theorem Holds.ne_negativeZero {u : UnpackedFloat} (h : Holds sign n u) : u ≠ .zero .negative := by
  cases h <;> exact nofun

/-- Two numbers that one float holds have one sign, and are equal if one of them has at most 53 digits. -/
theorem Holds.unique {sign' : Sign} {n' : Nat} {u : UnpackedFloat} (h : Holds sign n u) (h' : Holds sign' n' u) :
    sign = sign' ∧ (n < 2 ^ 53 → n = n') := by
  cases h with
  | zero =>
      cases h'
      exact ⟨rfl, fun _ => rfl⟩
  | @exact _ _ m k _ hfull hk hm =>
      generalize hu : UnpackedFloat.finite sign m (-k) hfull.pos = u at h'
      cases h' with
      | zero => cases hu
      | @exact _ _ m' k' _ hfull' hk' hm' =>
          obtain ⟨hsign, hmantissa, hexponent⟩ := UnpackedFloat.finite.inj hu
          obtain rfl : k = k' := by omega
          exact ⟨hsign, fun _ => Nat.eq_of_mul_eq_mul_right (Nat.two_pow_pos k) (hm.symm.trans (hmantissa.trans hm'))⟩
      | great _ _ he' _ =>
          have := (UnpackedFloat.finite.inj hu).2.2
          omega
      | infinite => cases hu
  | great hn hfull he he' =>
      refine ⟨?_, fun h => absurd hn (Nat.not_le.mpr h)⟩
      cases h' <;> rfl
  | infinite hn =>
      refine ⟨?_, fun h => absurd hn (Nat.not_le.mpr h)⟩
      cases h'
      rfl

theorem ofInt_beq_self (n : Int) : (Float.ofInt n == Float.ofInt n) = true :=
  beq_iff.mpr ⟨(holds_ofInt n).ne_notANumber, (holds_ofInt n).ne_notANumber, .inl rfl⟩

theorem unpack_eq_of_beq {a : Int} {x : Float} (h : (x == Float.ofInt a) = true)
    (hx : x.toModel.unpack ≠ .zero .negative) :
    x.toModel.unpack = (Float.ofInt a).toModel.unpack := by
  obtain ⟨_, _, heq | ⟨_, hzero⟩ | ⟨hzero, _⟩⟩ := beq_iff.mp h
  · exact heq
  · exact absurd hzero (holds_ofInt a).ne_negativeZero
  · exact absurd hzero hx

theorem eq_of_signOf {a b : Int} (hsign : signOf a = signOf b) (habs : a.natAbs = b.natAbs) : a = b := by
  cases a <;> cases b <;> simp_all [signOf]

/-- Integers of which one has at most 53 digits are told apart by their floats. -/
theorem ofInt_inj_of_lt {a b : Int} (ha : a.natAbs < 2 ^ 53) (h : (Float.ofInt a == Float.ofInt b) = true) : a = b := by
  have hunpack := unpack_eq_of_beq h (holds_ofInt a).ne_negativeZero
  obtain ⟨hsign, habs⟩ := (holds_ofInt a).unique (hunpack ▸ holds_ofInt b)
  exact eq_of_signOf hsign (habs ha)

/-- Integers up to two to the 53 are told apart by their floats. -/
theorem ofInt_inj {a b : Int} (ha : a.natAbs ≤ 2 ^ 53) (hb : b.natAbs ≤ 2 ^ 53)
    (h : (Float.ofInt a == Float.ofInt b) = true) : a = b := by
  rcases Nat.lt_or_eq_of_le ha with ha | ha
  · exact ofInt_inj_of_lt ha h
  · rcases Nat.lt_or_eq_of_le hb with hb | hb
    · exact (ofInt_inj_of_lt hb (BEq.symm h)).symm
    · have hunpack := unpack_eq_of_beq h (holds_ofInt a).ne_negativeZero
      exact eq_of_signOf ((holds_ofInt a).unique (hunpack ▸ holds_ofInt b)).1 (ha.trans hb.symm)

end MonitorExport.Decimal
