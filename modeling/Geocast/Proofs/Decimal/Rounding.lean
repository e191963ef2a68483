import Geocast.Proofs.Decimal.Order

/-! # Rounding of differences and quotients

A difference of finite doubles that are not equal is not zero, and rounding leaves its unit next to
the one that a number of its size has (`Float.sub_cases`). So the quotient of two differences of
which the first is not larger does not overflow (`Float.isFinite_ratio`). -/

namespace Geocast

open Float.Model Float.Model.UnpackedFloat

/-- The unit of a rounded number of the size of `n` smallest doubles. -/
def unitOf (n : Nat) : Int := max ((n.log2 : Int) - 52) 0 - 1074

section
variable {s : Sign} {m n : Nat} {e : Int} {u v : UnpackedFloat}

theorem unitOf_mono (h : m ≤ n) : unitOf m ≤ unitOf n := by
  have hlog := log2_le_of_le h
  unfold unitOf
  omega

theorem log2_mul_two_pow (hm : 0 < m) (k : Nat) : (m * 2 ^ k).log2 = m.log2 + k := by
  induction k with
  | zero => rw [pow_zero, mul_one, add_zero]
  | succ k ih =>
    rw [pow_succ, ← mul_assoc, mul_comm, Nat.log2_two_mul (by positivity), ih, add_assoc]

theorem targetExponent_eq (hm : 0 < m) (he : -1074 ≤ e) :
    Format.binary64.targetExponent (totalExponent m e) = unitOf (m * 2 ^ (e + 1074).toNat) := by
  have hbits : Format.binary64.mantissaBits = 53 := rfl
  have hmin : Format.binary64.minExponent = -1074 := rfl
  rw [Format.targetExponent, totalExponent, hbits, hmin, unitOf, log2_mul_two_pow hm]
  omega

theorem Rounded.unitOf_eq (h : Rounded m e) (hm : 0 < m) :
    unitOf (m * 2 ^ (e + 1074).toNat) = e := by
  obtain ⟨hlt, hlow, hnormal⟩ := h
  have hlog := log2_le_of_lt hlt
  have hnormal : 52 ≤ m.log2 ∨ e = -1074 := hnormal.imp_left (Nat.le_log2 hm.ne').2
  rw [unitOf, log2_mul_two_pow hm]
  omega

/-- A significand that counts too small a unit is cut down to 53 bits. -/
theorem shiftToTargetExponent_rounded (a : Accuracy) (hm : 0 < m) (he : -1074 ≤ e)
    (hunit : e ≤ unitOf (m * 2 ^ (e + 1074).toNat)) :
    (shiftToTargetExponent .binary64 m e a).2 = unitOf (m * 2 ^ (e + 1074).toNat) ∧
      0 < (shiftToTargetExponent .binary64 m e a).1.mantissa ∧
      Rounded (shiftToTargetExponent .binary64 m e a).1.mantissa
        (unitOf (m * 2 ^ (e + 1074).toNat)) := by
  have htarget := targetExponent_eq hm he
  have hmantissa := mantissa_shiftToTargetExponent m e a
  rw [htarget] at hmantissa
  generalize hT : unitOf (m * 2 ^ (e + 1074).toNat) = T at *
  rw [unitOf, log2_mul_two_pow hm] at hT
  have hlog : (m / 2 ^ (T - e).toNat).log2 = m.log2 - (T - e).toNat := by
    rw [Nat.log2_eq_log_two, Nat.log_div_base_pow, ← Nat.log2_eq_log_two]
  have hpos : 0 < m / 2 ^ (T - e).toNat := by
    refine Nat.div_pos ((Nat.le_log2 hm.ne').1 ?_) (by positivity)
    omega
  rw [hmantissa]
  refine ⟨?_, hpos, (Nat.log2_lt hpos.ne').1 (by omega), by omega, ?_⟩
  · simp only [shiftToTargetExponent, shiftToExponent, htarget]
    omega
  · by_cases hlow : T = -1074
    · exact .inr hlow
    · exact .inl ((Nat.le_log2 hpos.ne').1 (by omega))

/-- Rounding is done after the first cut. A carry beyond 53 bits doubles the unit once more. -/
theorem roundWithAccuracy_rounded (s : Sign) (a : Accuracy) (hm : 0 < m) (he : -1074 ≤ e)
    (hunit : e ≤ unitOf (m * 2 ^ (e + 1074).toNat)) :
    ∃ m' e' hm', roundWithAccuracy .binary64 s m e a = .finite s m' e' hm' ∧ Rounded m' e' ∧
      unitOf (m * 2 ^ (e + 1074).toNat) ≤ e' ∧ e' ≤ unitOf (m * 2 ^ (e + 1074).toNat) + 1 := by
  obtain ⟨hfirst, hpos, hrounded⟩ := shiftToTargetExponent_rounded a hm he hunit
  unfold roundWithAccuracy
  generalize shiftToTargetExponent .binary64 m e a = first at *
  generalize unitOf (m * 2 ^ (e + 1074).toNat) = T at *
  have hle := le_roundedMantissa first.1
  have hge := roundedMantissa_le first.1
  dsimp only
  rw [hfirst]
  generalize first.1.roundedMantissa = r at *
  have hr : 0 < r := hpos.trans_le hle
  have hlow := hrounded.low
  have hT : T ≤ unitOf (r * 2 ^ (T + 1074).toNat) :=
    (hrounded.unitOf_eq hpos).ge.trans (unitOf_mono (Nat.mul_le_mul_right _ hle))
  have hT' : unitOf (r * 2 ^ (T + 1074).toNat) ≤ T + 1 := by
    have hlog : r.log2 ≤ 53 := log2_le_of_lt (by have := hrounded.lt; omega)
    rw [unitOf, log2_mul_two_pow hr]
    omega
  obtain ⟨hsecond, hpos', hrounded'⟩ := shiftToTargetExponent_rounded .exact hr hlow hT
  generalize shiftToTargetExponent .binary64 r T .exact = second at *
  rw [dif_neg hpos'.ne']
  exact ⟨_, _, hpos', rfl, hsecond ▸ hrounded', hsecond ▸ hT, hsecond ▸ hT'⟩

/-- Rounding a significand with any unit that is not below the smallest. -/
theorem round_rounded (s : Sign) (hm : 0 < m) (he : -1074 ≤ e) :
    ∃ m' e' hm', UnpackedFloat.round .binary64 s m e = .finite s m' e' hm' ∧ Rounded m' e' ∧
      unitOf (m * 2 ^ (e + 1074).toNat) ≤ e' ∧ e' ≤ unitOf (m * 2 ^ (e + 1074).toNat) + 1 := by
  unfold UnpackedFloat.round decreaseExponent
  rw [targetExponent_eq hm he]
  dsimp only
  generalize hT : unitOf (m * 2 ^ (e + 1074).toNat) = T
  have hlow : -1074 ≤ T := by
    rw [← hT, unitOf]
    omega
  have hsame : m <<< (e - T).toNat * 2 ^ (e - (e - T).toNat + 1074).toNat =
      m * 2 ^ (e + 1074).toNat := by
    rw [Nat.shiftLeft_eq, mul_assoc, ← pow_add]
    congr 2
    omega
  have hround := roundWithAccuracy_rounded (m := m <<< (e - T).toNat) (e := e - (e - T).toNat)
    s .exact ?_ ?_ ?_
  · rwa [hsame, hT] at hround
  · rw [Nat.shiftLeft_eq]
    positivity
  · omega
  · rw [hsame, hT]
    omega

/-- A number that is zero exactly if `d` is, with a unit next to the one of a number of the size of
`d` smallest doubles. -/
def Near (d : Int) (u : UnpackedFloat) : Prop :=
  (d = 0 ∧ ∃ s, u = .zero s) ∨ d ≠ 0 ∧ ∃ s m e hm, u = .finite s m e hm ∧ Rounded m e ∧
    unitOf d.natAbs ≤ e ∧ e ≤ unitOf d.natAbs + 1

theorem natAbs_apply (s : Sign) (n : Nat) : (s.apply n).natAbs = n := by
  cases s
  · exact Int.natAbs_neg n
  · rfl

theorem near_finite (s : Sign) (hm : 0 < m) (h : Rounded m e) :
    Near (quanta (.finite s m e hm)) (.finite s m e hm) := by
  have hunit := h.unitOf_eq hm
  have habs : (quanta (.finite s m e hm)).natAbs = m * 2 ^ (e + 1074).toNat := natAbs_apply ..
  refine .inr ⟨fun hzero => ?_, s, m, e, hm, rfl, h, ?_, ?_⟩
  · rw [hzero] at habs
    exact absurd habs (by positivity)
  · rw [habs, hunit]
  · rw [habs, hunit]
    omega

theorem near_normalize (M : Int) (s : Sign) (he : -1074 ≤ e) :
    Near (M * 2 ^ (e + 1074).toNat) (UnpackedFloat.normalize .binary64 M e s) := by
  have hpow : (2 : Int) ^ (e + 1074).toNat ≠ 0 := by positivity
  have habs : (M * 2 ^ (e + 1074).toNat).natAbs = M.natAbs * 2 ^ (e + 1074).toNat := by
    rw [Int.natAbs_mul, Int.natAbs_pow]
    rfl
  unfold UnpackedFloat.normalize
  split
  · next hlt =>
    have hneg : M < 0 := compare_lt_iff_lt.1 hlt
    obtain ⟨m', e', hm', h, hrounded, hunit⟩ :=
      round_rounded (m := (-M).toNat) .negative (by omega) he
    rw [show (-M).toNat = M.natAbs by omega, ← habs] at hunit
    exact .inr ⟨mul_ne_zero hneg.ne hpow, _, _, _, _, h, hrounded, hunit⟩
  · next heq =>
    rw [compare_eq_iff_eq.1 heq, zero_mul]
    exact .inl ⟨rfl, s, rfl⟩
  · next hgt =>
    have hpos : 0 < M := compare_gt_iff_gt.1 hgt
    obtain ⟨m', e', hm', h, hrounded, hunit⟩ :=
      round_rounded (m := M.toNat) .positive (by omega) he
    rw [show M.toNat = M.natAbs by omega, ← habs] at hunit
    exact .inr ⟨mul_ne_zero hpos.ne' hpow, _, _, _, _, h, hrounded, hunit⟩

/-- A number as a multiple of a smaller unit. -/
theorem apply_shiftLeft (s : Sign) (hm : 0 < m) {j : Int} (hj : -1074 ≤ j) (hje : j ≤ e) :
    s.apply (m <<< (e - j).toNat : Nat) * 2 ^ (j + 1074).toNat = quanta (.finite s m e hm) := by
  have hnat : m <<< (e - j).toNat * 2 ^ (j + 1074).toNat = m * 2 ^ (e + 1074).toNat := by
    rw [Nat.shiftLeft_eq, mul_assoc, ← pow_add]
    congr 2
    omega
  have hint := congrArg (Nat.cast : Nat → Int) hnat
  push_cast at hint
  cases s with
  | negative =>
    simp only [quanta, Sign.apply, neg_mul]
    push_cast
    rw [hint]
  | positive =>
    simp only [quanta, Sign.apply]
    push_cast
    exact hint

/-- A difference is rounded. -/
theorem near_sub (hu : IsNumber u) (hv : IsNumber v) :
    Near (quanta u - quanta v) (UnpackedFloat.sub .binary64 u v) := by
  cases hu with
  | zero s =>
    cases hv with
    | zero s' =>
      cases s <;> cases s' <;> exact .inl ⟨rfl, _, rfl⟩
    | @finite s' m' e' hm' h' =>
      have hneg : quanta (.finite (-s') m' e' hm') = 0 - quanta (.finite s' m' e' hm') := by
        cases s'
        · exact (Int.zero_sub _).trans (Int.neg_neg _) |>.symm
        · exact (Int.zero_sub _).symm
      rw [show quanta (.zero s) = 0 from rfl, ← hneg]
      exact near_finite (-s') hm' h'
  | @finite s m e hm h =>
    cases hv with
    | zero s' =>
      rw [show quanta (.zero s') = 0 from rfl, sub_zero]
      exact near_finite s hm h
    | @finite s' m' e' hm' h' =>
      have hlow : -1074 ≤ min e e' := le_min h.low h'.low
      rw [← apply_shiftLeft s hm hlow (min_le_left ..),
        ← apply_shiftLeft s' hm' hlow (min_le_right ..), ← sub_mul]
      exact near_normalize _ .positive hlow

end

namespace Float

variable {x y z t : Float}

theorem unpack_add (x y : Float) : (x + y).toModel.unpack =
    (pack (UnpackedFloat.add .binary64 x.toModel.unpack y.toModel.unpack)).unpack := rfl

theorem unpack_sub (x y : Float) : (x - y).toModel.unpack =
    (pack (UnpackedFloat.sub .binary64 x.toModel.unpack y.toModel.unpack)).unpack := rfl

theorem unpack_mul (x y : Float) : (x * y).toModel.unpack =
    (pack (UnpackedFloat.mul .binary64 x.toModel.unpack y.toModel.unpack)).unpack := rfl

theorem unpack_div (x y : Float) : (x / y).toModel.unpack =
    (pack (UnpackedFloat.div .binary64 x.toModel.unpack y.toModel.unpack)).unpack := rfl

/-- A zero of either sign. -/
def IsZero (x : Float) : Prop := ∃ s, x.toModel.unpack = .zero s

theorem IsZero.isFinite (h : IsZero x) : isFiniteFloat x := by
  obtain ⟨s, hs⟩ := h
  exact isFiniteFloat_iff.2 ⟨0, hs ▸ .zero s⟩

theorem IsZero.quanta_eq (h : IsZero x) : quanta x = 0 := by
  obtain ⟨s, hs⟩ := h
  rw [quanta, hs]
  rfl

theorem unpack_pack_zero (s : Sign) : (pack (.zero s)).unpack = .zero s := by
  cases s <;> rfl

theorem unpack_pack_infinity (s : Sign) : (pack (.infinity s)).unpack = .infinity s := by
  cases s <;> rfl

theorem unpack_pack_notANumber : (pack .notANumber).unpack = .notANumber := rfl

/-- The difference of finite doubles is zero, or a number whose unit is next to the one that fits
the exact difference, or infinite because that unit is too large. -/
theorem sub_cases (hx : isFiniteFloat x) (hy : isFiniteFloat y) :
    quanta x = quanta y ∧ IsZero (x - y) ∨ quanta x ≠ quanta y ∧ ∃ e,
      unitOf (quanta x - quanta y).natAbs ≤ e ∧ e ≤ unitOf (quanta x - quanta y).natAbs + 1 ∧
      (UnitBetween e e (x - y).toModel.unpack ∨
        971 < e ∧ ∃ s, (x - y).toModel.unpack = .infinity s) := by
  have hpacked := unpack_sub x y
  rcases near_sub (isNumber hx) (isNumber hy) with
    ⟨hd, s, hs⟩ | ⟨hd, s, m, e, hm, hs, hrounded, hlow, hhigh⟩
  · rw [hs, unpack_pack_zero] at hpacked
    exact .inl ⟨sub_eq_zero.1 hd, s, hpacked⟩
  · rw [hs, unpack_pack_finite hrounded] at hpacked
    refine .inr ⟨fun h => hd (sub_eq_zero.2 h), e, hlow, hhigh, ?_⟩
    split at hpacked
    · exact .inl (hpacked ▸ .finite s m hm le_rfl le_rfl)
    · next h => exact .inr ⟨Int.not_le.1 h, s, hpacked⟩

theorem isZero_sub (hx : isFiniteFloat x) (hy : isFiniteFloat y) (h : quanta x = quanta y) :
    IsZero (x - y) := by
  rcases sub_cases hx hy with ⟨-, hzero⟩ | ⟨hne, -⟩
  · exact hzero
  · exact absurd h hne

theorem isFinite_of_unitBetween {e : Int} (h : UnitBetween e e x.toModel.unpack) :
    isFiniteFloat x :=
  isFiniteFloat_iff.2 ⟨e, h.atMost⟩

theorem not_isFinite_of_infinity {s : Sign} (h : x.toModel.unpack = .infinity s) :
    ¬ isFiniteFloat x := by
  show ¬ (!x.toModel.unpack.isNaN && !x.toModel.unpack.isInf) = true
  rw [h]
  exact Bool.false_ne_true

/-- A difference of finite doubles that are not too far apart is finite. -/
theorem isFinite_sub (hx : isFiniteFloat x) (hy : isFiniteFloat y)
    (h : unitOf (quanta x - quanta y).natAbs ≤ 970) : isFiniteFloat (x - y) := by
  rcases sub_cases hx hy with ⟨-, hzero⟩ | ⟨-, e, -, he, hfinite | ⟨hlarge, -⟩⟩
  · exact hzero.isFinite
  · exact isFinite_of_unitBetween hfinite
  · omega

/-- What is divided by an infinity is a zero, if it is finite, and else NaN. -/
theorem isFinite_div_infinity {s : Sign} (hy : y.toModel.unpack = .infinity s) :
    isFiniteFloat (x / y) ↔ isFiniteFloat x := by
  have hquotient := unpack_div x y
  rw [hy] at hquotient
  show (!(x / y).toModel.unpack.isNaN && !(x / y).toModel.unpack.isInf) = true ↔
    (!x.toModel.unpack.isNaN && !x.toModel.unpack.isInf) = true
  rw [hquotient]
  cases x.toModel.unpack with
  | zero | finite =>
    simp only [UnpackedFloat.div, unpack_pack_zero]
    exact Iff.rfl
  | infinity =>
    simp only [UnpackedFloat.div, unpack_pack_notANumber]
    exact Iff.rfl
  | notANumber => simp only [UnpackedFloat.div, unpack_pack_notANumber]

theorem not_isFinite_infinity_div {s : Sign} (hx : x.toModel.unpack = .infinity s)
    {i k : Int} (hy : UnitBetween i k y.toModel.unpack) : ¬ isFiniteFloat (x / y) := by
  have hquotient := unpack_div x y
  rw [hx] at hquotient
  generalize y.toModel.unpack = v at *
  cases hy with
  | finite s' m hm =>
    rw [UnpackedFloat.div, unpack_pack_infinity] at hquotient
    exact not_isFinite_of_infinity hquotient

/-- The share of a stretch that lies before a point of it is finite, if the stretch up to that point
is. -/
theorem isFinite_ratio (hx : isFiniteFloat x) (hy : isFiniteFloat y) (hz : isFiniteFloat z)
    (hyx : quanta y ≤ quanta x) (hxz : quanta x ≤ quanta z) (hyz : quanta y < quanta z) :
    isFiniteFloat ((x - y) / (z - y)) ↔ isFiniteFloat (x - y) := by
  obtain ⟨heq, -⟩ | ⟨-, e₂, hlow₂, -, hden | ⟨-, s, hden⟩⟩ := sub_cases hz hy
  · exact absurd heq hyz.ne'
  · -- the part is not longer than the whole, so its unit is not much larger
    have hunit : unitOf (quanta x - quanta y).natAbs ≤ unitOf (quanta z - quanta y).natAbs :=
      unitOf_mono (by omega)
    have hfinite (h : UnitAtMost (e₂ + 1) (x - y).toModel.unpack) :
        isFiniteFloat ((x - y) / (z - y)) :=
      isFiniteFloat_iff.2 ⟨_, unitAtMost_div h hden (by omega) (by omega)⟩
    obtain ⟨-, hzero⟩ | ⟨-, e₁, -, hhigh₁, hnum | ⟨-, s, hnum⟩⟩ := sub_cases hx hy
    · obtain ⟨s, hs⟩ := hzero
      exact ⟨fun _ => isFiniteFloat_iff.2 ⟨0, hs ▸ .zero s⟩, fun _ => hfinite (hs ▸ .zero s)⟩
    · exact ⟨fun _ => isFinite_of_unitBetween hnum,
        fun _ => hfinite (hnum.atMost.mono (by omega))⟩
    · exact ⟨fun h => absurd h (not_isFinite_infinity_div hnum hden),
        fun h => absurd h (not_isFinite_of_infinity hnum)⟩
  · exact isFinite_div_infinity hden

/-! ### Zeros -/

theorem isFinite_iff_unpack : isFiniteFloat x ↔
    (∃ s, x.toModel.unpack = .zero s) ∨ ∃ s m e hm, x.toModel.unpack = .finite s m e hm := by
  show (!x.toModel.unpack.isNaN && !x.toModel.unpack.isInf) = true ↔ _
  cases x.toModel.unpack with
  | zero s => exact ⟨fun _ => .inl ⟨s, rfl⟩, fun _ => rfl⟩
  | finite s m e hm => exact ⟨fun _ => .inr ⟨s, m, e, hm, rfl⟩, fun _ => rfl⟩
  | _ => simp [UnpackedFloat.isNaN, UnpackedFloat.isInf]

theorem isZero_mul (hx : isFiniteFloat x) (hz : IsZero z) : IsZero (x * z) := by
  have hproduct := unpack_mul x z
  obtain ⟨s, hs⟩ := hz
  rw [hs] at hproduct
  rcases isFinite_iff_unpack.1 hx with ⟨s', hs'⟩ | ⟨s', m, e, hm, hs'⟩ <;>
    rw [hs', UnpackedFloat.mul, unpack_pack_zero] at hproduct <;> exact ⟨_, hproduct⟩

theorem isZero_mul' (hz : IsZero z) (hx : isFiniteFloat x) : IsZero (z * x) := by
  have hproduct := unpack_mul z x
  obtain ⟨s, hs⟩ := hz
  rw [hs] at hproduct
  rcases isFinite_iff_unpack.1 hx with ⟨s', hs'⟩ | ⟨s', m, e, hm, hs'⟩ <;>
    rw [hs', UnpackedFloat.mul, unpack_pack_zero] at hproduct <;> exact ⟨_, hproduct⟩

theorem isNaN_mul (hx : ¬ isFiniteFloat x) (hz : IsZero z) : (x * z).isNaN := by
  have hproduct := unpack_mul x z
  obtain ⟨s, hs⟩ := hz
  rw [isFinite_iff_unpack] at hx
  rw [hs] at hproduct
  show (x * z).toModel.unpack.isNaN = true
  rw [hproduct]
  generalize x.toModel.unpack = u at *
  cases u with
  | zero s => exact absurd (.inl ⟨s, rfl⟩) hx
  | finite s m e hm => exact absurd (.inr ⟨s, m, e, hm, rfl⟩) hx
  | _ => simp only [UnpackedFloat.mul, unpack_pack_notANumber]; rfl

theorem unpack_add_isZero {s : Sign} {m : Nat} {e : Int} {hm : 0 < m}
    (hx : x.toModel.unpack = .finite s m e hm) (hz : IsZero z) :
    (x + z).toModel.unpack = x.toModel.unpack := by
  have hsum := unpack_add x z
  obtain ⟨s', hs'⟩ := hz
  obtain ⟨hrounded, he⟩ := rounded_of_unpack hx
  have hsame : UnpackedFloat.add .binary64 (.finite s m e hm) (.zero s') = .finite s m e hm := rfl
  rw [hsum, hs', hx, hsame, unpack_pack_finite hrounded, if_pos he]

/-- Adding a zero keeps a number, but may change the sign of a zero. -/
theorem add_isZero (hx : isFiniteFloat x) (hz : IsZero z) :
    isFiniteFloat (x + z) ∧ quanta (x + z) = quanta x := by
  rcases isFinite_iff_unpack.1 hx with ⟨s, hs⟩ | ⟨s, m, e, hm, hs⟩
  · have hzero : IsZero (x + z) := by
      have hsum := unpack_add x z
      obtain ⟨s', hs'⟩ := hz
      rw [hs, hs'] at hsum
      cases s <;> cases s' <;> exact ⟨_, hsum⟩
    exact ⟨hzero.isFinite, hzero.quanta_eq.trans (IsZero.quanta_eq ⟨s, hs⟩).symm⟩
  · have hsame := unpack_add_isZero hs hz
    exact ⟨isFinite_iff_unpack.2 (.inr ⟨_, _, _, _, hsame.trans hs⟩), congrArg Geocast.quanta hsame⟩

theorem isNaN_iff : x.isNaN ↔ x.toModel.unpack = .notANumber := by
  show x.toModel.unpack.isNaN = true ↔ _
  cases x.toModel.unpack <;> simp [UnpackedFloat.isNaN]

theorem isNaN_mul_left (ht : t.isNaN) : (t * z).isNaN := by
  rw [isNaN_iff] at ht ⊢
  rw [unpack_mul, ht]
  cases z.toModel.unpack <;> simp only [UnpackedFloat.mul, unpack_pack_notANumber]

theorem isNaN_add (hz : z.isNaN) : (x + z).isNaN := by
  rw [isNaN_iff] at hz ⊢
  rw [unpack_add, hz]
  cases x.toModel.unpack <;> simp only [UnpackedFloat.add, unpack_pack_notANumber]

theorem isNaN_sub (hz : z.isNaN) : (x - z).isNaN := by
  rw [isNaN_iff] at hz ⊢
  rw [unpack_sub, hz]
  cases x.toModel.unpack <;> simp only [UnpackedFloat.sub, unpack_pack_notANumber]

theorem not_lt_of_isNaN (hy : y.isNaN) : ¬ x < y := by
  rw [lt_def, isNaN_iff.1 hy]
  cases x.toModel.unpack <;> exact fun h => nomatch h

theorem not_le_of_isNaN (hx : x.isNaN) : ¬ x ≤ y := by
  rw [le_def, isNaN_iff.1 hx]
  cases y.toModel.unpack <;> exact fun h => nomatch h

end Float

end Geocast
