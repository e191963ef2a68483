import Geocast.Decimal.Numeral
import Mathlib

/-! # Numerals stand for finite doubles

`Numeral.toFloat?` scales a significand of 64 bits by powers of ten. Where it multiplies it refuses
an overflow, and where it divides there is none, because the quotient of a number below `2 ^ 64` by
a power of ten is not larger. So what a numeral stands for is finite (`isFiniteFloat_of_toFloat?`).

A double is bounded here by its unit, the power of two that its significand counts
(`UnitAtMost`). The bounds are generous, since there is plenty of room below the unit `2 ^ 971` of
the largest doubles. -/

namespace Geocast

open Float.Model Float.Model.UnpackedFloat

/-- A zero, or a number whose unit is `2 ^ k` at most. -/
inductive UnitAtMost (k : Int) : UnpackedFloat → Prop
  | zero (s : Sign) : UnitAtMost k (.zero s)
  | finite (s : Sign) (m : Nat) {e : Int} (hm : 0 < m) (he : e ≤ k) :
    UnitAtMost k (.finite s m e hm)

/-- A number other than zero whose unit lies between two powers of two. -/
inductive UnitBetween (j k : Int) : UnpackedFloat → Prop
  | finite (s : Sign) (m : Nat) {e : Int} (hm : 0 < m) (hlow : j ≤ e) (hhigh : e ≤ k) :
    UnitBetween j k (.finite s m e hm)

instance (j k : Int) (u : UnpackedFloat) : Decidable (UnitBetween j k u) :=
  match u with
  | .finite s m e hm =>
    decidable_of_iff (j ≤ e ∧ e ≤ k)
      ⟨fun ⟨hlow, hhigh⟩ => .finite s m hm hlow hhigh,
        fun (.finite _ _ _ hlow hhigh) => ⟨hlow, hhigh⟩⟩
  | .zero _ | .infinity _ | .notANumber => isFalse nofun

theorem UnitAtMost.mono {k k' : Int} {u : UnpackedFloat} (h : UnitAtMost k u) (hk : k ≤ k') :
    UnitAtMost k' u := by
  cases h with
  | zero s => exact .zero s
  | finite s m hm he => exact .finite s m hm (he.trans hk)

theorem UnitBetween.mono {j k j' k' : Int} {u : UnpackedFloat} (h : UnitBetween j k u)
    (hj : j' ≤ j) (hk : k ≤ k') : UnitBetween j' k' u := by
  cases h with
  | finite s m hm hlow hhigh => exact .finite s m hm (hj.trans hlow) (hhigh.trans hk)

theorem UnitBetween.atMost {j k : Int} {u : UnpackedFloat} (h : UnitBetween j k u) :
    UnitAtMost k u := by
  cases h with
  | finite s m hm _ hhigh => exact .finite s m hm hhigh

/-! ## Rounding -/

theorem log2_le_of_le {m n : Nat} (h : m ≤ n) : m.log2 ≤ n.log2 := by
  rw [Nat.log2_eq_log_two, Nat.log2_eq_log_two]
  exact Nat.log_mono_right h

theorem log2_le_of_lt {m L : Nat} (h : m < 2 ^ (L + 1)) : m.log2 ≤ L := by
  rcases Nat.eq_zero_or_pos m with rfl | hpos
  · exact Nat.zero_le L
  · exact Nat.lt_succ_iff.1 ((Nat.log2_lt hpos.ne').2 h)

theorem log2_succ_le (m : Nat) : (m + 1).log2 ≤ m.log2 + 1 := by
  rcases Nat.eq_zero_or_pos m with rfl | hm
  · decide
  · calc (m + 1).log2 ≤ (2 * m).log2 := log2_le_of_le (by omega)
      _ = m.log2 + 1 := Nat.log2_two_mul hm.ne'

theorem mantissa_shiftRight (em : ExtendedMantissa) (n : Nat) :
    (em >>> n).mantissa = em.mantissa / 2 ^ n := by
  induction n with
  | zero => exact (Nat.div_one _).symm
  | succ n ih =>
    show (em >>> n).mantissa / 2 = em.mantissa / 2 ^ (n + 1)
    rw [ih, Nat.div_div_eq_div_mul, pow_succ]

theorem mantissa_ofMantissaAndAccuracy (m : Nat) (a : Accuracy) :
    (ExtendedMantissa.ofMantissaAndAccuracy m a).mantissa = m := by
  unfold ExtendedMantissa.ofMantissaAndAccuracy
  split <;> rfl

theorem roundedMantissa_le (em : ExtendedMantissa) : em.roundedMantissa ≤ em.mantissa + 1 := by
  obtain ⟨m, round, sticky⟩ := em
  cases round <;> cases sticky <;>
    simp only [ExtendedMantissa.roundedMantissa, ExtendedMantissa.accuracy,
      Accuracy.roundToNearestEven] <;> omega

theorem le_roundedMantissa (em : ExtendedMantissa) : em.mantissa ≤ em.roundedMantissa := by
  obtain ⟨m, round, sticky⟩ := em
  cases round <;> cases sticky <;>
    simp only [ExtendedMantissa.roundedMantissa, ExtendedMantissa.accuracy,
      Accuracy.roundToNearestEven] <;> omega

theorem mantissa_shiftToTargetExponent (m : Nat) (e : Int) (a : Accuracy) :
    (shiftToTargetExponent .binary64 m e a).1.mantissa
      = m / 2 ^ (Format.binary64.targetExponent (totalExponent m e) - e).toNat := by
  unfold shiftToTargetExponent shiftToExponent
  dsimp only
  rw [mantissa_shiftRight, mantissa_ofMantissaAndAccuracy]

theorem exponent_shiftToTargetExponent_le {m L : Nat} {e k : Int} (a : Accuracy)
    (hm : m.log2 ≤ L) (he : e ≤ k) (hk : -1074 ≤ k) :
    (shiftToTargetExponent .binary64 m e a).2 ≤ k + L := by
  simp only [shiftToTargetExponent, shiftToExponent, Format.targetExponent, totalExponent,
    Format.mantissaBits, Format.minExponent]
  omega

/-- Rounding a significand of `L + 1` bits. -/
theorem unitAtMost_round {m L : Nat} {e k : Int} (s : Sign) (a : Accuracy)
    (hm : m.log2 ≤ L) (he : e ≤ k) (hk : -1074 ≤ k) :
    UnitAtMost (k + 2 * L + 1) (roundWithAccuracy .binary64 s m e a) := by
  unfold roundWithAccuracy
  have hunit := exponent_shiftToTargetExponent_le a hm he hk
  have hmantissa : (shiftToTargetExponent .binary64 m e a).1.mantissa ≤ m :=
    (mantissa_shiftToTargetExponent m e a).trans_le (Nat.div_le_self _ _)
  generalize shiftToTargetExponent .binary64 m e a = first at *
  have hrounded : first.1.roundedMantissa.log2 ≤ L + 1 :=
    calc first.1.roundedMantissa.log2 ≤ (m + 1).log2 :=
          log2_le_of_le ((roundedMantissa_le _).trans (by omega))
      _ ≤ L + 1 := (log2_succ_le m).trans (by omega)
  have hfinal := exponent_shiftToTargetExponent_le .exact hrounded hunit (by omega)
  dsimp only
  split
  · exact .zero s
  · exact .finite s _ _ (hfinal.trans (by push_cast; omega))

/-- A significand of 53 bits or more is shifted to exactly 53. -/
theorem shiftToTargetExponent_normal {m : Nat} {e : Int} (a : Accuracy) (hm : 52 ≤ m.log2)
    (he : -1074 ≤ e) :
    (shiftToTargetExponent .binary64 m e a).1.mantissa.log2 = 52 ∧
      (shiftToTargetExponent .binary64 m e a).2 = e + m.log2 - 52 := by
  have htarget : Format.binary64.targetExponent (totalExponent m e) - e = (m.log2 - 52 : Nat) := by
    simp only [Format.targetExponent, totalExponent, Format.mantissaBits, Format.minExponent]
    omega
  constructor
  · rw [mantissa_shiftToTargetExponent, htarget, Int.toNat_natCast, Nat.log2_eq_log_two,
      Nat.log_div_base_pow, ← Nat.log2_eq_log_two]
    omega
  · show e + ((Format.binary64.targetExponent (totalExponent m e) - e).toNat : Int) = _
    rw [htarget]
    omega

/-- Rounding a significand of 53 bits or more. -/
theorem round_normal {m : Nat} {e : Int} (s : Sign) (a : Accuracy) (hm : 52 ≤ m.log2)
    (he : -1074 ≤ e) :
    ∃ m' e' hm', roundWithAccuracy .binary64 s m e a = .finite s m' e' hm' ∧ m'.log2 = 52 ∧
      e ≤ e' ∧ e' ≤ e + m.log2 - 51 := by
  unfold roundWithAccuracy
  obtain ⟨hfirst, hunit⟩ := shiftToTargetExponent_normal a hm he
  generalize shiftToTargetExponent .binary64 m e a = first at *
  have hlow : 52 ≤ first.1.roundedMantissa.log2 :=
    hfirst.symm.trans_le (log2_le_of_le (le_roundedMantissa _))
  have hhigh : first.1.roundedMantissa.log2 ≤ 53 :=
    calc first.1.roundedMantissa.log2 ≤ (first.1.mantissa + 1).log2 :=
          log2_le_of_le (roundedMantissa_le _)
      _ ≤ 53 := (log2_succ_le _).trans (by omega)
  obtain ⟨hfinal, hunit'⟩ := shiftToTargetExponent_normal .exact hlow (e := first.2) (by omega)
  dsimp only
  split
  · next hzero =>
    rw [hzero] at hfinal
    exact absurd hfinal (by decide)
  · next hpos => exact ⟨_, _, Nat.pos_of_ne_zero hpos, rfl, hfinal, by omega, by omega⟩

/-! ## Packing -/

theorem unitAtMost_unpack_packComponents (s : Sign) {e : BitVec 11} (m : BitVec 52) {k : Int}
    (he : e ≠ -1#11) (hk : -1074 ≤ k) (hk' : (e.toNat : Int) - 1075 ≤ k) :
    UnitAtMost k (UnpackedFloat.unpack .binary64 (packComponents .binary64 s e m)) := by
  unfold UnpackedFloat.unpack
  simp only [unpackExponent_packComponents, unpackMantissa_packComponents]
  rw [if_neg he]
  split
  · next h0 =>
    split
    · exact .zero _
    · subst h0
      exact .finite _ _ _ hk
  · exact .finite _ _ _ hk'

/-- An exponent field below the one of infinities is kept. -/
theorem toNat_ofNat_exponent {b : Nat} (h : ¬ 2 ^ 11 ≤ b + 1) :
    (BitVec.ofNat 11 b).toNat = b ∧ BitVec.ofNat 11 b ≠ -1#11 := by
  have hfield : (BitVec.ofNat 11 b).toNat = b := by
    rw [BitVec.toNat_ofNat]
    omega
  refine ⟨hfield, fun hmax => ?_⟩
  have hfull := hfield.symm.trans (congrArg BitVec.toNat hmax)
  simp only [BitVec.neg_one_eq_allOnes, BitVec.toNat_allOnes] at hfull
  omega

theorem isInf_unpack_packedInfinity (s : Sign) :
    (UnpackedFloat.unpack .binary64 (packedInfinity .binary64 s)).isInf = true := by
  simp only [UnpackedFloat.unpack, packedInfinity, unpackExponent_packComponents,
    unpackMantissa_packComponents]
  rfl

/-- Packing turns numbers into infinities at most, and those only whose unit is too large. -/
theorem unpack_pack {u : UnpackedFloat} {k : Int} (h : UnitAtMost k u) (hk : -1074 ≤ k) :
    UnitAtMost k (pack u).unpack ∨ 971 < k ∧ (pack u).unpack.isInf = true := by
  show UnitAtMost k (UnpackedFloat.unpack .binary64 (UnpackedFloat.pack .binary64 u)) ∨
    971 < k ∧ (UnpackedFloat.unpack .binary64 (UnpackedFloat.pack .binary64 u)).isInf = true
  cases h with
  | zero s =>
    exact .inl (unitAtMost_unpack_packComponents s 0#52 (e := 0#11) (by decide) hk (by simp; omega))
  | @finite s m e hm he =>
    have hbias : e + (Format.binary64.exponentBias : Int)
        + Format.binary64.mantissaBitsWithoutImplicit = e + 1075 := by
      rw [add_assoc]
      rfl
    simp only [UnpackedFloat.pack, hbias]
    split
    · next hlarge =>
      have hlarge : 2 ^ 11 ≤ (e + 1075).toNat + 1 := hlarge
      exact .inr ⟨by omega, isInf_unpack_packedInfinity s⟩
    · next hsmall =>
      have hsmall : ¬ 2 ^ 11 ≤ (e + 1075).toNat + 1 := hsmall
      left
      split
      · obtain ⟨hfield, hmax⟩ := toNat_ofNat_exponent hsmall
        exact unitAtMost_unpack_packComponents s _ hmax hk (by omega)
      · exact unitAtMost_unpack_packComponents s _ (by decide) hk (by simp; omega)

theorem unitAtMost_unpack_pack {u : UnpackedFloat} {k : Int} (h : UnitAtMost k u)
    (hk : -1074 ≤ k) (hk' : k ≤ 971) : UnitAtMost k (pack u).unpack :=
  (unpack_pack h hk).resolve_right fun ⟨h, _⟩ => by omega

/-- Packing keeps the unit of a significand of 53 bits. -/
theorem unpack_pack_normal (s : Sign) {m : Nat} {e : Int} (hm : 0 < m) (hlog : m.log2 = 52)
    (hlow : -1074 ≤ e) (hhigh : e ≤ 971) : UnitBetween e e (pack (.finite s m e hm)).unpack := by
  show UnitBetween e e
    (UnpackedFloat.unpack .binary64 (UnpackedFloat.pack .binary64 (.finite s m e hm)))
  have hbias : (Format.binary64.exponentBias : Int)
      + Format.binary64.mantissaBitsWithoutImplicit = 1075 := rfl
  have hsmall : ¬ 2 ^ 11 ≤ (e + 1075).toNat + 1 := by omega
  obtain ⟨hfield, hmax⟩ := toNat_ofNat_exponent hsmall
  have hzero : BitVec.ofNat 11 (e + 1075).toNat ≠ 0#11 := fun h => by
    have hnone := hfield.symm.trans (congrArg BitVec.toNat h)
    simp only [BitVec.toNat_ofNat] at hnone
    omega
  simp only [UnpackedFloat.pack, add_assoc, hbias]
  rw [if_neg hsmall, if_pos (by rw [hlog]; rfl)]
  unfold UnpackedFloat.unpack
  simp only [unpackExponent_packComponents, unpackMantissa_packComponents]
  rw [if_neg hmax, if_neg hzero]
  have hexponent : ((BitVec.ofNat 11 (e + 1075).toNat).toNat : Int)
      - ((Format.binary64.exponentBias : Int)
        + Format.binary64.mantissaBitsWithoutImplicit) = e := by omega
  exact .finite _ _ _ hexponent.ge hexponent.le

theorem unbiased_le {e : BitVec 11} (h : e ≠ -1#11) :
    (e.toNat : Int) - ((Format.binary64.exponentBias : Int)
      + Format.binary64.mantissaBitsWithoutImplicit) ≤ 971 := by
  have hbias : (Format.binary64.exponentBias : Int)
      + Format.binary64.mantissaBitsWithoutImplicit = 1075 := rfl
  have hlt := e.isLt
  have hne : e.toNat ≠ 2047 := fun h' => h (BitVec.eq_of_toNat_eq h')
  omega

/-- What is read out of the bits of a finite double has at most 53 bits, and a unit of at most
`2 ^ 971`. -/
theorem unpack_finite {x : Float.Model} {s : Sign} {m : Nat} {e : Int} {hm : 0 < m}
    (h : x.unpack = .finite s m e hm) : m < 2 ^ 53 ∧ e ≤ 971 := by
  simp only [Float.Model.unpack, UnpackedFloat.unpack] at h
  split at h
  · split at h <;> cases h
  · next hfull =>
    split at h
    · next hzero =>
      split at h
      · cases h
      · cases h
        rw [hzero]
        exact ⟨(BitVec.isLt _).trans (by decide), by decide⟩
    · cases h
      exact ⟨BitVec.isLt _, unbiased_le hfull⟩

theorem isFiniteFloat_iff {x : Float} :
    isFiniteFloat x ↔ ∃ k, UnitAtMost k x.toModel.unpack := by
  show (!x.toModel.unpack.isNaN && !x.toModel.unpack.isInf) = true ↔ _
  cases x.toModel.unpack with
  | finite s m e hm => exact ⟨fun _ => ⟨e, .finite s m hm le_rfl⟩, fun _ => rfl⟩
  | zero s => exact ⟨fun _ => ⟨0, .zero s⟩, fun _ => rfl⟩
  | _ => exact ⟨nofun, nofun⟩

theorem unitAtMost_of_isFinite {x : Float} (h : isFiniteFloat x) :
    UnitAtMost 971 x.toModel.unpack := by
  obtain ⟨k, hk⟩ := isFiniteFloat_iff.1 h
  generalize hu : x.toModel.unpack = u at hk
  cases hk with
  | zero s => exact .zero s
  | finite s m hm => exact .finite s m hm (unpack_finite hu).2

/-! ## Products and quotients -/

theorem log2_mul_two_pow_le {m L : Nat} (n : Nat) (hm : m.log2 ≤ L) :
    (m * 2 ^ n).log2 ≤ L + n := by
  rcases Nat.eq_zero_or_pos m with rfl | hpos
  · simp
  · refine log2_le_of_lt ?_
    rw [add_right_comm, pow_add]
    exact Nat.mul_lt_mul_of_pos_right ((Nat.log2_lt hpos.ne').1 (by omega)) (by positivity)

theorem unitAtMost_mul {u v : UnpackedFloat} {j k : Int} {L : Nat} (hu : UnitAtMost j u)
    (hv : UnitAtMost k v) (hlow : -1074 ≤ j + k) (hL : ∀ s m e hm s' m' e' hm',
      u = .finite s m e hm → v = .finite s' m' e' hm' → (m * m').log2 ≤ L) :
    UnitAtMost (j + k + 2 * L + 1) (UnpackedFloat.mul .binary64 u v) := by
  cases hu with
  | zero s => cases hv <;> exact .zero _
  | finite s m hm hj =>
    cases hv with
    | zero s' => exact .zero _
    | finite s' m' hm' hk =>
      exact unitAtMost_round _ _ (hL _ _ _ _ _ _ _ _ rfl rfl) (add_le_add hj hk) hlow

theorem mul_log2_le {m n : Nat} (hm : m < 2 ^ 53) (hn : n < 2 ^ 53) : (m * n).log2 ≤ 105 :=
  log2_le_of_lt ((Nat.mul_lt_mul'' hm hn).trans_eq (by norm_num))

/-- The product of two doubles, if it does not overflow. -/
theorem Float.unitAtMost_mul {x y : Float} {j k : Int} (hx : UnitAtMost j x.toModel.unpack)
    (hy : UnitAtMost k y.toModel.unpack) (hlow : -1074 ≤ j + k) :
    UnitAtMost (j + k + 211) (x * y).toModel.unpack ∨ 971 < j + k + 211 ∧ (x * y).isInf = true := by
  refine unpack_pack (u := UnpackedFloat.mul .binary64 _ _) ?_ (by omega)
  exact (Geocast.unitAtMost_mul hx hy hlow fun s m e hm s' m' e' hm' h h' =>
    mul_log2_le (unpack_finite h).1 (unpack_finite h').1).mono (by omega)

/-- The quotient of two significands of 53 bits is worked out to twice as many. -/
theorem log2_divCore_le {m n : Nat} (d e : Int) (hm : m < 2 ^ 53) (hn : n < 2 ^ 53) :
    (divCore .binary64 m d n e).1.log2 ≤ 105 := by
  have hlog := log2_le_of_lt hm
  have hlog' := log2_le_of_lt hn
  have hshift : (d - e - min (d - e) (Format.binary64.targetExponent
      (totalExponent m d - totalExponent n e))).toNat ≤ n.log2 + 53 - m.log2 := by
    simp only [Format.targetExponent, totalExponent, Format.mantissaBits, Format.minExponent]
    omega
  calc (divCore .binary64 m d n e).1.log2
      ≤ (m * 2 ^ (n.log2 + 53 - m.log2)).log2 := by
        refine log2_le_of_le ((Nat.div_le_self _ _).trans ?_)
        rw [Nat.shiftLeft_eq]
        exact Nat.mul_le_mul_left _ (Nat.pow_le_pow_right (by omega) hshift)
    _ ≤ m.log2 + (n.log2 + 53 - m.log2) := log2_mul_two_pow_le _ le_rfl
    _ ≤ 105 := by omega

/-- The quotient of two doubles whose units are not too far apart. -/
theorem Float.unitAtMost_div {x y : Float} {i j k : Int} (hx : UnitAtMost j x.toModel.unpack)
    (hy : UnitBetween i k y.toModel.unpack) (hlow : -1074 ≤ j - i) (hhigh : j - i ≤ 760) :
    UnitAtMost (j - i + 211) (x / y).toModel.unpack := by
  refine unitAtMost_unpack_pack (k := j - i + 211) (u := UnpackedFloat.div .binary64 _ _) ?_
    (by omega) (by omega)
  generalize hu : x.toModel.unpack = u at hx ⊢
  generalize hv : y.toModel.unpack = v at hy ⊢
  cases hy with
  | @finite s' m' e hm' he =>
    cases hx with
    | zero s => exact .zero _
    | @finite s m d hm hd =>
      have hquotient := log2_divCore_le d e (unpack_finite hu).1 (unpack_finite hv).1
      have hunit : (divCore .binary64 m d m' e).2.1 ≤ j - i :=
        (min_le_left _ _).trans (by omega)
      exact (unitAtMost_round _ _ hquotient hunit (by omega)).mono (by omega)

/-! ## Whole numbers and powers of ten -/

theorem unitAtMost_toFloat (n : UInt64) : UnitAtMost 127 n.toFloat.toModel.unpack := by
  refine unitAtMost_unpack_pack (k := 127) (u := UnpackedFloat.ofUInt64 .binary64 n) ?_
    (by omega) (by omega)
  show UnitAtMost 127 (UnpackedFloat.normalize .binary64 (n.toNat : Int) 0 .positive)
  unfold UnpackedFloat.normalize
  split
  · next hneg =>
    exact absurd (compare_lt_iff_lt.1 hneg) (by omega)
  · exact .zero _
  · have hlog : n.toNat.log2 ≤ 63 := log2_le_of_lt n.toNat_lt
    have hshift : (0 - Format.binary64.targetExponent (totalExponent n.toNat 0)).toNat
        ≤ 63 - n.toNat.log2 := by
      simp only [Format.targetExponent, totalExponent, Format.mantissaBits, Format.minExponent]
      omega
    have hlarge : (n.toNat <<< (0 - Format.binary64.targetExponent
        (totalExponent n.toNat 0)).toNat).log2 ≤ 63 := by
      rw [Nat.shiftLeft_eq]
      exact (log2_mul_two_pow_le _ le_rfl).trans (by omega)
    exact (unitAtMost_round _ _ hlarge (k := 0) (by omega) (by omega)).mono (by omega)

theorem ofScientific_eq {n e m : Nat} (hn : n ≠ 0) (he : e ≤ 308) (hm : n <<< 53 * 10 ^ e = m) :
    UnpackedFloat.ofScientific .binary64 n (Int.ofNat e)
      = roundWithAccuracy .binary64 (.positive * .positive) m (-53 + 0) .exact := by
  have hlarge : ¬ Int.ofNat e > 2 ^ Format.binary64.exponentBits := by
    show ¬ (e : Int) > 2 ^ 11
    omega
  have hsmall : ¬ Int.ofNat e < -(2 ^ Format.binary64.exponentBits + (n.log2 : Int)) := by
    show ¬ (e : Int) < -(2 ^ 11 + (n.log2 : Int))
    omega
  unfold UnpackedFloat.ofScientific
  rw [dif_neg hn, if_neg hlarge, if_neg hsmall,
    if_pos (show 0 ≤ Int.ofNat e from Int.natCast_nonneg e), ← hm]
  rfl

theorem unitAtMost_ofNat {n : Nat} (hn : n < wordBound) :
    UnitAtMost 286 (Float.ofNat n).toModel.unpack := by
  show UnitAtMost 286 (Float.ofScientific n false 0).toModel.unpack
  unfold Float.ofScientific
  split
  · have hone : UnitBetween (-52) (-52)
        (Float.exactlyRepresentablePowersOfTen[0]).toModel.unpack := by
      decide +kernel
    exact (Float.unitAtMost_mul (unitAtMost_toFloat _) hone.atMost (by decide)).resolve_right
      fun ⟨h, _⟩ => absurd h (by decide)
  · next hbig =>
    have hpos : n ≠ 0 := fun h => hbig ⟨by omega, by omega⟩
    have hlog : (n <<< 53 * 10 ^ 0).log2 ≤ 116 := by
      rw [Nat.shiftLeft_eq, Nat.pow_zero, Nat.mul_one]
      exact log2_mul_two_pow_le 53 (log2_le_of_lt (hn.trans_eq (by decide)) : n.log2 ≤ 63)
    refine unitAtMost_unpack_pack (u := UnpackedFloat.ofScientific .binary64 n (Int.ofNat 0)) ?_
      (by decide) (by decide)
    -- The significand is named, since a product with a large literal must not be evaluated.
    generalize hm : n <<< 53 * 10 ^ 0 = m at hlog
    rw [ofScientific_eq hpos (by decide) hm]
    exact (unitAtMost_round (k := -53) _ _ hlog (by decide) (by decide)).mono (by decide)

theorem unitBetween_powerOfTen {e : Nat} (he : e ≤ 308) :
    UnitBetween (-53) 971 (Numeral.powerOfTen e).toModel.unpack := by
  rcases Nat.lt_or_ge 22 e with hlarge | hsmall
  · rcases he.eq_or_lt with rfl | hlt
    · decide +kernel
    have hpos : 1 <<< 53 * 10 ^ e ≠ 0 := Nat.mul_ne_zero (by decide) (by positivity)
    have hlow : 52 ≤ (1 <<< 53 * 10 ^ e).log2 := by
      rw [Nat.le_log2 hpos]
      calc 2 ^ 52 ≤ 1 <<< 53 := by decide
        _ ≤ 1 <<< 53 * 10 ^ e := Nat.le_mul_of_pos_right _ (by positivity)
    have hhigh : (1 <<< 53 * 10 ^ e).log2 ≤ 1073 := by
      rw [← Nat.lt_succ_iff, Nat.log2_lt hpos]
      calc 1 <<< 53 * 10 ^ e ≤ 1 <<< 53 * 10 ^ 307 :=
            Nat.mul_le_mul_left _ (Nat.pow_le_pow_right (by omega) (by omega))
        _ < 2 ^ Nat.succ 1073 := by decide +kernel
    obtain ⟨m, u, hm, heq, hlog, hlow', hhigh'⟩ :=
      round_normal (e := -53 + 0) (.positive * .positive) .exact hlow (by omega)
    unfold Numeral.powerOfTen Float.ofScientific
    rw [dif_neg (by omega)]
    show UnitBetween (-53) 971 (pack (UnpackedFloat.ofScientific .binary64 1 (Int.ofNat e))).unpack
    rw [ofScientific_eq one_ne_zero he rfl, heq]
    exact (unpack_pack_normal _ hm hlog (by omega) (by omega)).mono (by omega) (by omega)
  · exact (by decide +kernel :
      ∀ e ≤ 22, UnitBetween (-53) 971 (Numeral.powerOfTen e).toModel.unpack) e hsmall

/-! ## Numerals -/

theorem isFiniteFloat_neg {x : Float} (h : isFiniteFloat x) : isFiniteFloat (-x) := by
  refine isFiniteFloat_iff.2 ⟨971, unitAtMost_unpack_pack (u := UnpackedFloat.neg _) ?_
    (by decide) (by decide)⟩
  have hx := unitAtMost_of_isFinite h
  generalize x.toModel.unpack = u at hx ⊢
  cases hx with
  | zero s => exact .zero _
  | finite s m hm he => exact .finite _ m hm he

namespace Numeral

theorem gather_lt {s : Nat} (ds : List Digit) (hs : s < wordBound) :
    (gather s ds).1 < wordBound := by
  induction ds generalizing s with
  | nil => exact hs
  | cons d ds ih =>
    unfold gather
    split
    · next hfit => exact ih hfit
    · exact hs

theorem isFiniteFloat_scaleUp {x y : Float} {e : Nat} (hx : UnitAtMost 286 x.toModel.unpack)
    (h : scaleUp x e = some y) : isFiniteFloat y := by
  unfold scaleUp at h
  dsimp only at h
  split at h
  · next he =>
    split at h
    · cases h
    · next hinf =>
      cases h
      have hproduct := Float.unitAtMost_mul hx (unitBetween_powerOfTen he).atMost (by decide)
      exact isFiniteFloat_iff.2 ⟨_, hproduct.resolve_right fun ⟨_, h⟩ => hinf h⟩
  · split at h
    · cases h
      exact isFiniteFloat_iff.2 ⟨_, hx⟩
    · cases h

theorem isFiniteFloat_scaleDown {x : Float} (e : Nat) (hx : UnitAtMost 286 x.toModel.unpack) :
    isFiniteFloat (scaleDown x e) := by
  unfold scaleDown
  split
  · next he =>
    exact isFiniteFloat_iff.2
      ⟨_, Float.unitAtMost_div hx (unitBetween_powerOfTen he) (by decide) (by decide)⟩
  · split
    · next he =>
      have hlarge := unitBetween_powerOfTen (le_refl 308)
      have hrest := unitBetween_powerOfTen (e := e - 308) (by omega)
      generalize powerOfTen 308 = p at hlarge ⊢
      have hfirst := Float.unitAtMost_div hx hlarge (by decide) (by decide)
      exact isFiniteFloat_iff.2 ⟨_, Float.unitAtMost_div hfirst hrest (by decide) (by decide)⟩
    · decide +kernel

/-- What a numeral stands for is neither NaN nor an infinity. -/
theorem isFiniteFloat_of_toFloat? {n : Numeral} {x : Float} (h : n.toFloat? = some x) :
    isFiniteFloat x := by
  unfold toFloat? at h
  have hs : (gather (gather 0 (Digit.ofNat n.whole)).1 n.fraction).1 < wordBound :=
    gather_lt _ (gather_lt _ (by decide))
  have hx := unitAtMost_ofNat hs
  dsimp only at h
  generalize Float.ofNat _ = x₀ at h hx
  generalize (_ : Int) + _ = e at h
  cases e with
  | ofNat e =>
    split at h
    · obtain ⟨y, hy, rfl⟩ := Option.map_eq_some_iff.1 h
      exact isFiniteFloat_neg (isFiniteFloat_scaleUp hx hy)
    · exact isFiniteFloat_scaleUp hx h
  | negSucc e =>
    split at h
    · cases h
      exact isFiniteFloat_neg (isFiniteFloat_scaleDown (e + 1) hx)
    · cases h
      exact isFiniteFloat_scaleDown (e + 1) hx

end Numeral

end Geocast
