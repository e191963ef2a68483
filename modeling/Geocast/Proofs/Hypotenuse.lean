import Geocast.Hypotenuse
import Geocast.Proofs.Decimal.Rounding

/-! # Hypotenuses over a leg of no length

Such a hypotenuse is the other leg, without its sign and exactly, whichever leg comes first and
whatever the other one is (`unpack_hypotenuse_zero`, `hypotenuse_le_iff`). -/

namespace Geocast

open Float.Model.UnpackedFloat

variable {x y r : Float}

namespace Float

/-- A finite double without sign. -/
def IsSize (x : Float) : Prop :=
  x.toModel.unpack = .zero .positive ∨ ∃ m e hm, x.toModel.unpack = .finite .positive m e hm

theorem IsSize.isFinite (h : IsSize x) : isFiniteFloat x :=
  isFinite_iff_unpack.2 (h.imp (fun h => ⟨_, h⟩) fun ⟨m, e, hm, h⟩ => ⟨_, m, e, hm, h⟩)

theorem IsSize.quanta_nonneg (h : IsSize x) : 0 ≤ quanta x := by
  rw [quanta]
  rcases h with h | ⟨m, e, hm, h⟩ <;> rw [h]
  · exact le_refl 0
  · exact (quanta_positive hm).le

theorem IsSize.eq_zero (h : IsSize x) (hzero : ¬ 0 < quanta x) :
    x.toModel.unpack = .zero .positive := by
  rcases h with h | ⟨m, e, hm, h⟩
  · exact h
  · rw [quanta, h] at hzero
    exact absurd (quanta_positive hm) hzero

theorem unpack_abs (y : Float) :
    y.abs.toModel.unpack = (Float.Model.pack y.toModel.unpack.abs).unpack := rfl

theorem isSize_abs (h : isFiniteFloat y) : IsSize y.abs := by
  rw [IsSize, unpack_abs]
  rcases isFinite_iff_unpack.1 h with ⟨s, hs⟩ | ⟨s, m, e, hm, hs⟩
  · rw [hs]
    exact .inl (unpack_pack_zero .positive)
  · obtain ⟨hrounded, he⟩ := rounded_of_unpack hs
    rw [hs]
    exact .inr ⟨m, e, hm, (unpack_pack_finite hrounded hm).trans (if_pos he)⟩

theorem unpack_abs_zero (h : IsZero x) : x.abs.toModel.unpack = .zero .positive := by
  obtain ⟨s, hs⟩ := h
  rw [unpack_abs, hs]
  exact unpack_pack_zero .positive

/-- Doubles that are read alike compare alike. -/
theorem le_congr (h : x.toModel.unpack = y.toModel.unpack) : x ≤ r ↔ y ≤ r := by
  rw [le_def, le_def, h]

end Float

theorem unpack_hypotenuseOver (hx : Float.IsSize x) (hy : y.toModel.unpack = .zero .positive) :
    (hypotenuseOver x y).toModel.unpack = x.toModel.unpack := by
  have hzero : Float.IsZero (y * twoTo 54) := Float.isZero_mul' ⟨_, hy⟩ (by decide +kernel)
  have hle : y * twoTo 54 ≤ x := by
    rw [Float.le_iff hzero.isFinite hx.isFinite, hzero.quanta_eq]
    exact hx.quanta_nonneg
  rw [hypotenuseOver, if_pos hle]
  rcases hx with hx | ⟨m, e, hm, hx⟩
  · rw [Float.unpack_add, hx, hy]
    rfl
  · exact Float.unpack_add_isZero hx ⟨_, hy⟩

theorem hypotenuse_of_isFinite (hx : isFiniteFloat x) (hy : isFiniteFloat y) : hypotenuse x y =
    if x.abs < y.abs then hypotenuseOver y.abs x.abs else hypotenuseOver x.abs y.abs := by
  have hx : (!x.isNaN && !x.isInf) = true := hx
  have hy : (!y.isNaN && !y.isInf) = true := hy
  simp only [Bool.and_eq_true, Bool.not_eq_true'] at hx hy
  simp only [hypotenuse, hx, hy, Bool.or_self, Bool.false_eq_true, if_false]

theorem unpack_hypotenuse_of_not_isFinite (hx : Float.IsZero x) (hy : ¬ isFiniteFloat y) :
    (hypotenuse x y).toModel.unpack = y.abs.toModel.unpack ∧
      (hypotenuse y x).toModel.unpack = y.abs.toModel.unpack := by
  obtain ⟨s, hs⟩ := hx
  have hxinf : x.isInf = false := congrArg Float.Model.UnpackedFloat.isInf hs
  have hxnan : x.isNaN = false := congrArg Float.Model.UnpackedFloat.isNaN hs
  rw [Float.unpack_abs]
  rw [Float.isFinite_iff_unpack] at hy
  cases hu : y.toModel.unpack with
  | zero s => exact absurd (.inl ⟨s, hu⟩) hy
  | finite s m e hm => exact absurd (.inr ⟨s, m, e, hm, hu⟩) hy
  | infinity s =>
    have hyinf : y.isInf = true := congrArg Float.Model.UnpackedFloat.isInf hu
    rw [hypotenuse, hypotenuse, hxinf, hyinf]
    exact ⟨rfl, rfl⟩
  | notANumber =>
    have hyinf : y.isInf = false := congrArg Float.Model.UnpackedFloat.isInf hu
    have hynan : y.isNaN = true := congrArg Float.Model.UnpackedFloat.isNaN hu
    rw [hypotenuse, hypotenuse, hxinf, hyinf, hxnan, hynan]
    exact ⟨rfl, rfl⟩

theorem unpack_hypotenuse_zero (hx : Float.IsZero x) (y : Float) :
    (hypotenuse x y).toModel.unpack = y.abs.toModel.unpack ∧
      (hypotenuse y x).toModel.unpack = y.abs.toModel.unpack := by
  by_cases hy : isFiniteFloat y
  · have hxabs := Float.unpack_abs_zero hx
    have hxsize : Float.IsSize x.abs := .inl hxabs
    have hysize := Float.isSize_abs hy
    have hzero : Float.quanta x.abs = 0 := Float.IsZero.quanta_eq ⟨_, hxabs⟩
    have hnot : ¬ y.abs < x.abs := by
      rw [Float.lt_iff hysize.isFinite hxsize.isFinite, hzero]
      exact not_lt.2 hysize.quanta_nonneg
    rw [hypotenuse_of_isFinite hx.isFinite hy, hypotenuse_of_isFinite hy hx.isFinite, if_neg hnot]
    refine ⟨?_, unpack_hypotenuseOver hysize hxabs⟩
    split
    · exact unpack_hypotenuseOver hysize hxabs
    · next hlt =>
      -- the other leg has no length, either
      rw [Float.lt_iff hxsize.isFinite hysize.isFinite, hzero] at hlt
      have hyabs := hysize.eq_zero hlt
      rw [unpack_hypotenuseOver hxsize hyabs, hxabs, hyabs]
  · exact unpack_hypotenuse_of_not_isFinite hx hy

theorem isNaN_hypotenuse (hx : x.isNaN) (hy : y.isNaN) : (hypotenuse x y).isNaN := by
  have hinf {z : Float} (hz : z.isNaN) : z.isInf = false :=
    congrArg Float.Model.UnpackedFloat.isInf (Float.isNaN_iff.1 hz)
  simp only [hypotenuse, hinf hx, hinf hy, hx, Bool.or_self, Bool.true_or, Bool.false_eq_true,
    if_false, if_true]
  decide +kernel

/-- Comparing a hypotenuse comes down to the other leg if one leg has no length, and also if both
are NaN. -/
theorem hypotenuse_le_iff (h : Float.IsZero x ∨ x.isNaN ∧ y.isNaN) :
    (hypotenuse x y ≤ r ↔ y.abs ≤ r) ∧ (hypotenuse y x ≤ r ↔ y.abs ≤ r) := by
  rcases h with hx | ⟨hx, hy⟩
  · obtain ⟨hleft, hright⟩ := unpack_hypotenuse_zero hx y
    exact ⟨Float.le_congr hleft, Float.le_congr hright⟩
  · have habs : y.abs.isNaN := by
      rw [Float.isNaN_iff, Float.unpack_abs, Float.isNaN_iff.1 hy]
      exact Float.unpack_pack_notANumber
    have hnot {z : Float} (hz : z.isNaN) : ¬ z ≤ r := Float.not_le_of_isNaN hz
    exact ⟨iff_of_false (hnot (isNaN_hypotenuse hx hy)) (hnot habs),
      iff_of_false (hnot (isNaN_hypotenuse hy hx)) (hnot habs)⟩

end Geocast
