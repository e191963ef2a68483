import Geocast.Proofs.Decimal.Finite

/-! # Doubles in order

Finite doubles are whole multiples of the smallest one, `2 ^ (-1074)`; `quanta` counts them. They
compare as these numbers do (`Float.lt_iff`), and what lies between two of them is finite, too. -/

namespace Geocast

open Float.Model Float.Model.UnpackedFloat

/-! ## What the bits stand for -/

/-- A significand with a unit that is as small as possible: it has 53 bits, or counts the smallest
doubles. -/
structure Rounded (m : Nat) (e : Int) : Prop where
  lt : m < 2 ^ 53
  low : -1074 ≤ e
  normal : 2 ^ 52 ≤ m ∨ e = -1074

section
variable {s : Sign} {m : Nat} {e : Int}

theorem bias_eq : (Format.binary64.exponentBias : Int)
    + Format.binary64.mantissaBitsWithoutImplicit = 1075 := rfl

theorem toNat_append_one (m : BitVec 52) : (1#1 ++ m).toNat = 2 ^ 52 + m.toNat := by
  rw [BitVec.toNat_append, ← Nat.shiftLeft_add_eq_or_of_lt m.isLt]
  rfl

theorem rounded_of_unpack {x : Float.Model} {hm : 0 < m} (h : x.unpack = .finite s m e hm) :
    Rounded m e ∧ e ≤ 971 := by
  have hunit := (unpack_finite h).2
  simp only [Float.Model.unpack, UnpackedFloat.unpack] at h
  split at h
  · split at h <;> cases h
  · split at h
    · next hzero =>
      split at h
      · cases h
      · cases h
        rw [hzero] at hunit ⊢
        exact ⟨⟨(BitVec.isLt _).trans (by decide), by decide, .inr (by decide)⟩, hunit⟩
    · next hzero =>
      cases h
      have hpos : 0 < (@unpackExponent .binary64 x.toBits.toBitVec).toNat := by
        rw [Nat.pos_iff_ne_zero]
        exact fun h => hzero (BitVec.eq_of_toNat_eq h)
      refine ⟨⟨BitVec.isLt _, ?_, .inl ?_⟩, hunit⟩
      · rw [bias_eq]
        omega
      · rw [toNat_append_one]
        exact Nat.le_add_right _ _

theorem sign_packComponents (s : Sign) (e : BitVec 11) (m : BitVec 52) :
    Sign.ofBitVec (unpackSign (packComponents .binary64 s e m)) = s := by
  have hsign : unpackSign (packComponents .binary64 s e m) = s.toBitVec := by
    refine BitVec.eq_of_getLsbD_eq fun i hi => ?_
    obtain rfl : i = 0 := by omega
    simp only [unpackSign, packComponents, BitVec.getLsbD_cast, BitVec.getLsbD_extractLsb,
      BitVec.getLsbD_append]
    rfl
  rw [hsign]
  cases s <;> rfl

theorem unpack_normal {E : BitVec 11} {M : BitVec 52} (hm : 0 < m) (hmax : E ≠ -1#11)
    (hzero : E ≠ 0#11) (hmantissa : 2 ^ 52 + M.toNat = m) (he : (E.toNat : Int) - 1075 = e) :
    UnpackedFloat.unpack .binary64 (packComponents .binary64 s E M) = .finite s m e hm := by
  rw [← toNat_append_one] at hmantissa
  subst hmantissa he
  simp only [UnpackedFloat.unpack, unpackExponent_packComponents, unpackMantissa_packComponents,
    sign_packComponents]
  rw [if_neg hmax, if_neg hzero]
  rfl

theorem unpack_subnormal {M : BitVec 52} (hm : 0 < m) (hmantissa : M.toNat = m) :
    UnpackedFloat.unpack .binary64 (packComponents .binary64 s 0#11 M) =
      .finite s m (-1074) hm := by
  subst hmantissa
  have hne : M ≠ 0#52 := by
    rintro rfl
    exact absurd hm (by decide)
  simp only [UnpackedFloat.unpack, unpackExponent_packComponents, unpackMantissa_packComponents,
    sign_packComponents]
  rw [if_neg (by decide), if_pos trivial, dif_neg hne]
  rfl

/-- Packing keeps a rounded number, unless its unit is too large. -/
theorem unpack_pack_finite (h : Rounded m e) (hm : 0 < m) : (pack (.finite s m e hm)).unpack =
    if e ≤ 971 then .finite s m e hm else .infinity s := by
  show UnpackedFloat.unpack .binary64 (UnpackedFloat.pack .binary64 (.finite s m e hm)) = _
  obtain ⟨hlt, hlow, hnormal⟩ := h
  have hbias : (e + (Format.binary64.exponentBias : Int)
      + Format.binary64.mantissaBitsWithoutImplicit).toNat = (e + 1075).toNat := by
    rw [add_assoc]
    rfl
  have hbits : Format.binary64.mantissaBits = 53 := rfl
  have hlimit : 2 ^ Format.binary64.exponentBits = 2048 := rfl
  simp only [UnpackedFloat.pack, hbias, hbits, hlimit]
  by_cases hhigh : e ≤ 971
  · obtain ⟨hfield, hmax⟩ := toNat_ofNat_exponent (b := (e + 1075).toNat) (by omega)
    rw [if_neg (by omega), if_pos hhigh]
    split
    · next hlog =>
      have hnormal : 2 ^ 52 ≤ m := (Nat.le_log2 hm.ne').1 (by omega)
      refine unpack_normal hm hmax (fun h => ?_) ?_ (by omega)
      · have hnone := hfield.symm.trans (congrArg BitVec.toNat h)
        simp only [BitVec.toNat_ofNat] at hnone
        omega
      · rw [BitVec.toNat_ofNat]
        omega
    · next hlog =>
      have hsmall : m < 2 ^ 52 := (Nat.log2_lt hm.ne').1 <|
        Nat.lt_of_le_of_ne (log2_le_of_lt hlt) fun h => hlog (by rw [h])
      obtain rfl : e = -1074 := hnormal.resolve_left (Nat.not_le.2 hsmall)
      refine unpack_subnormal hm ?_
      rw [BitVec.toNat_ofNat, Nat.mod_eq_of_lt hsmall]
  · rw [if_pos (by omega), if_neg hhigh]
    simp only [UnpackedFloat.unpack, packedInfinity, unpackExponent_packComponents,
      unpackMantissa_packComponents, sign_packComponents]
    rfl

end

/-! ## Order -/

/-- How often the smallest double goes into a number. -/
def quanta : UnpackedFloat → Int
  | .finite s m e _ => s.apply (m * 2 ^ (e + 1074).toNat : Nat)
  | _ => 0

/-- What finite doubles are unpacked to. -/
inductive IsNumber : UnpackedFloat → Prop
  | zero (s : Sign) : IsNumber (.zero s)
  | finite {s : Sign} {m : Nat} {e : Int} (hm : 0 < m) (h : Rounded m e) :
    IsNumber (.finite s m e hm)

section
variable {s : Sign} {m m' : Nat} {e e' : Int} {u v : UnpackedFloat}

theorem Rounded.mul_lt_of_unit_lt (h : Rounded m e) (h' : Rounded m' e') (he : e < e') :
    m * 2 ^ (e + 1074).toNat < m' * 2 ^ (e' + 1074).toNat := by
  have hlow := h.low
  have hnormal : 2 ^ 52 ≤ m' := h'.normal.resolve_right (by omega)
  obtain ⟨k, hk⟩ : ∃ k, (e' + 1074).toNat = (e + 1074).toNat + 1 + k :=
    ⟨(e' - e - 1).toNat, by omega⟩
  calc m * 2 ^ (e + 1074).toNat < 2 ^ 53 * 2 ^ (e + 1074).toNat :=
        Nat.mul_lt_mul_of_pos_right h.lt (by positivity)
    _ = 2 ^ 52 * 2 ^ ((e + 1074).toNat + 1) := by ring
    _ ≤ m' * 2 ^ (e' + 1074).toNat := by
        rw [hk]
        exact Nat.mul_le_mul hnormal (Nat.pow_le_pow_right (by decide) (by omega))

/-- Rounded numbers compare by their units first. -/
theorem Rounded.compare_eq (h : Rounded m e) (h' : Rounded m' e') :
    (compare e e').then (compare m m') =
      compare (m * 2 ^ (e + 1074).toNat) (m' * 2 ^ (e' + 1074).toNat) := by
  rcases lt_trichotomy e e' with he | rfl | he
  · rw [compare_lt_iff_lt.2 he, compare_lt_iff_lt.2 (h.mul_lt_of_unit_lt h' he)]
    rfl
  · have hpos : 0 < 2 ^ (e + 1074).toNat := by positivity
    rw [compare_eq_iff_eq.2 rfl]
    rcases lt_trichotomy m m' with hm | rfl | hm
    · rw [compare_lt_iff_lt.2 (Nat.mul_lt_mul_of_pos_right hm hpos), compare_lt_iff_lt.2 hm]
      rfl
    · rw [compare_eq_iff_eq.2 rfl, compare_eq_iff_eq.2 rfl]
      rfl
    · rw [compare_gt_iff_gt.2 (Nat.mul_lt_mul_of_pos_right hm hpos), compare_gt_iff_gt.2 hm]
      rfl
  · rw [compare_gt_iff_gt.2 he, compare_gt_iff_gt.2 (h'.mul_lt_of_unit_lt h he)]
    rfl

theorem compare_natCast (a b : Nat) : compare (a : Int) (b : Int) = compare a b := by
  rcases lt_trichotomy a b with h | rfl | h
  · rw [compare_lt_iff_lt.2 h, compare_lt_iff_lt.2 (Int.ofNat_lt.2 h)]
  · rw [compare_eq_iff_eq.2 rfl, compare_eq_iff_eq.2 rfl]
  · rw [compare_gt_iff_gt.2 h, compare_gt_iff_gt.2 (Int.ofNat_lt.2 h)]

theorem compare_neg (a b : Int) : compare (-a) (-b) = (compare a b).swap := by
  rcases lt_trichotomy a b with h | rfl | h
  · rw [compare_lt_iff_lt.2 h, compare_gt_iff_gt.2 (Int.neg_lt_neg h)]
    rfl
  · rw [compare_eq_iff_eq.2 rfl, compare_eq_iff_eq.2 rfl]
    rfl
  · rw [compare_gt_iff_gt.2 h, compare_lt_iff_lt.2 (Int.neg_lt_neg h)]
    rfl

theorem quanta_positive (hm : 0 < m) : 0 < quanta (.finite .positive m e hm) := by
  refine Int.natCast_pos.2 (?_ : 0 < m * 2 ^ (e + 1074).toNat)
  positivity

theorem quanta_negative (hm : 0 < m) : quanta (.finite .negative m e hm) < 0 :=
  Int.neg_neg_of_pos (quanta_positive hm)

/-- Numbers compare as their multiples of the smallest double do. -/
theorem compare_quanta (hu : IsNumber u) (hv : IsNumber v) :
    u.compare v = some (compare (quanta u) (quanta v)) := by
  cases hu with
  | zero s =>
    cases hv with
    | zero s' => rfl
    | @finite s' _ _ hm' h' =>
      cases s' with
      | positive => exact congrArg some (compare_lt_iff_lt.2 (quanta_positive hm')).symm
      | negative => exact congrArg some (compare_gt_iff_gt.2 (quanta_negative hm')).symm
  | @finite s _ _ hm h =>
    cases hv with
    | zero s' =>
      cases s with
      | positive => exact congrArg some (compare_gt_iff_gt.2 (quanta_positive hm)).symm
      | negative => exact congrArg some (compare_lt_iff_lt.2 (quanta_negative hm)).symm
    | @finite s' _ _ hm' h' =>
      have hsame := (h.compare_eq h').trans (compare_natCast ..).symm
      cases s <;> cases s'
      · exact congrArg some ((congrArg Ordering.swap hsame).trans (compare_neg ..).symm)
      · refine congrArg some (compare_lt_iff_lt.2 ?_).symm
        exact (quanta_negative hm).trans (quanta_positive hm')
      · refine congrArg some (compare_gt_iff_gt.2 ?_).symm
        exact (quanta_negative hm').trans (quanta_positive hm)
      · exact congrArg some hsame

end

/-! ## Finite doubles -/

namespace Float

variable {x y z : Float}

theorem isNumber (h : isFiniteFloat x) : IsNumber x.toModel.unpack := by
  obtain ⟨k, hk⟩ := isFiniteFloat_iff.1 h
  generalize hu : x.toModel.unpack = u at hk ⊢
  cases hk with
  | zero s => exact .zero s
  | finite s m hm he => exact .finite hm (rounded_of_unpack hu).1

/-- A finite double as a multiple of the smallest one. -/
def quanta (x : Float) : Int := Geocast.quanta x.toModel.unpack

theorem lt_def : x < y ↔ x.toModel.unpack.compare y.toModel.unpack = some .lt :=
  calc x < y ↔ (x.toModel.unpack.compare y.toModel.unpack == some .lt) = true := decide_eq_true_iff
    _ ↔ x.toModel.unpack.compare y.toModel.unpack = some .lt := beq_iff_eq

theorem le_def : x ≤ y ↔ (x.toModel.unpack.compare y.toModel.unpack).any Ordering.isLE :=
  decide_eq_true_iff

theorem lt_iff (hx : isFiniteFloat x) (hy : isFiniteFloat y) : x < y ↔ quanta x < quanta y := by
  rw [lt_def, compare_quanta (isNumber hx) (isNumber hy), Option.some_inj]
  exact compare_lt_iff_lt

theorem le_iff (hx : isFiniteFloat x) (hy : isFiniteFloat y) : x ≤ y ↔ quanta x ≤ quanta y := by
  rw [le_def, compare_quanta (isNumber hx) (isNumber hy)]
  exact Int.isLE_compare

theorem beq_iff (hx : isFiniteFloat x) (hy : isFiniteFloat y) : x == y ↔ quanta x = quanta y := by
  show (x.toModel.unpack.compare y.toModel.unpack == some .eq) = true ↔ _
  rw [compare_quanta (isNumber hx) (isNumber hy), beq_iff_eq, Option.some_inj]
  exact compare_eq_iff_eq

/-- What lies between finite doubles is finite. -/
theorem finite_of_between (hx : isFiniteFloat x) (hz : isFiniteFloat z) (hxy : x ≤ y)
    (hyz : y ≤ z) : isFiniteFloat y := by
  rw [le_def] at hxy hyz
  show (!y.toModel.unpack.isNaN && !y.toModel.unpack.isInf) = true
  have hx := isNumber hx
  have hz := isNumber hz
  generalize x.toModel.unpack = u at *
  generalize y.toModel.unpack = v at *
  generalize z.toModel.unpack = w at *
  cases v with
  | zero | finite => rfl
  | notANumber => cases w <;> exact nomatch hyz
  | infinity s =>
    cases s with
    | positive => cases hz <;> exact nomatch hyz
    | negative => cases hx <;> exact nomatch hxy

end Float

end Geocast
