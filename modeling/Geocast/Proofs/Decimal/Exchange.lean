import Geocast.Location
import Geocast.Proofs.Decimal.Rounding

/-! # Operands exchanged

A sum of doubles does not depend on the order of its operands (`Float.add_comm`), and a difference
only in its sign, since rounding treats both signs alike (`Float.abs_unpack_sub`). A hypotenuse does
not see the signs of its legs, so the distance of two locations is the same from either end
(`Location.distance_comm`). -/

namespace Geocast

open Float.Model Float.Model.UnpackedFloat

/-! ## Unpacked numbers -/

section
variable {u v : UnpackedFloat}

theorem unpacked_add_comm (u v : UnpackedFloat) :
    UnpackedFloat.add .binary64 u v = UnpackedFloat.add .binary64 v u := by
  cases u with
  | notANumber => cases v <;> rfl
  | infinity s =>
    cases v with
    | infinity s' => cases s <;> cases s' <;> rfl
    | _ => rfl
  | zero s =>
    cases v with
    | zero s' => cases s <;> cases s' <;> rfl
    | _ => rfl
  | finite s m e hm =>
    cases v with
    | finite s' m' e' hm' =>
      simp only [UnpackedFloat.add]
      rw [min_comm e' e, add_comm (s'.apply _)]
    | _ => rfl

/-- The sign has no part in how a number is rounded. -/
theorem abs_round (s s' : Sign) (m : Nat) (e : Int) :
    (UnpackedFloat.round .binary64 s m e).abs = (UnpackedFloat.round .binary64 s' m e).abs := by
  unfold UnpackedFloat.round roundWithAccuracy
  dsimp only
  split <;> rfl

theorem abs_normalize_neg (M e : Int) (s : Sign) :
    (UnpackedFloat.normalize .binary64 (-M) e s).abs =
      (UnpackedFloat.normalize .binary64 M e s).abs := by
  unfold UnpackedFloat.normalize
  rcases lt_trichotomy M 0 with h | rfl | h
  · rw [compare_lt_iff_lt.2 h, compare_gt_iff_gt.2 (Int.neg_pos_of_neg h)]
    exact abs_round ..
  · rfl
  · rw [compare_gt_iff_gt.2 h, compare_lt_iff_lt.2 (Int.neg_neg_of_pos h)]
    dsimp only
    rw [neg_neg]
    exact abs_round ..

theorem abs_unpacked_sub (u v : UnpackedFloat) :
    (UnpackedFloat.sub .binary64 u v).abs = (UnpackedFloat.sub .binary64 v u).abs := by
  cases u with
  | notANumber => cases v <;> rfl
  | infinity s =>
    cases v with
    | infinity s' => cases s <;> cases s' <;> rfl
    | _ => rfl
  | zero s =>
    cases v with
    | zero s' => cases s <;> cases s' <;> rfl
    | _ => rfl
  | finite s m e hm =>
    cases v with
    | finite s' m' e' hm' =>
      simp only [UnpackedFloat.sub]
      rw [min_comm e' e, ← neg_sub (s.apply _), abs_normalize_neg]
    | _ => rfl

/-- A number is packed alike with either sign. -/
theorem abs_unpack_pack (u : UnpackedFloat) : (pack u).unpack.abs = (pack u.abs).unpack := by
  have hsigned (s : Sign) (E : BitVec 11) (M : BitVec 52) :
      (UnpackedFloat.unpack .binary64 (packComponents .binary64 s E M)).abs =
        UnpackedFloat.unpack .binary64 (packComponents .binary64 .positive E M) := by
    simp only [UnpackedFloat.unpack, unpackExponent_packComponents, unpackMantissa_packComponents,
      sign_packComponents]
    split
    · split <;> rfl
    · split
      · split <;> rfl
      · rfl
  cases u with
  | notANumber => rfl
  | infinity s => exact hsigned ..
  | zero s => exact hsigned ..
  | finite s m e hm =>
    show (UnpackedFloat.unpack .binary64 (UnpackedFloat.pack .binary64 (.finite s m e hm))).abs =
      UnpackedFloat.unpack .binary64 (UnpackedFloat.pack .binary64 (.finite .positive m e hm))
    simp only [UnpackedFloat.pack]
    split
    · exact hsigned ..
    · split <;> exact hsigned ..

theorem isInf_abs (u : UnpackedFloat) : u.abs.isInf = u.isInf := by
  cases u <;> rfl

theorem isNaN_abs (u : UnpackedFloat) : u.abs.isNaN = u.isNaN := by
  cases u <;> rfl

end

/-! ## Doubles -/

namespace Float

theorem add_comm (x y : Float) : x + y = y + x :=
  congrArg (fun u => Float.ofModel (pack u)) (unpacked_add_comm ..)

/-- Differences with exchanged operands are the same but for their sign. -/
theorem abs_unpack_sub (x y : Float) :
    (x - y).toModel.unpack.abs = (y - x).toModel.unpack.abs := by
  rw [unpack_sub, unpack_sub, abs_unpack_pack, abs_unpack_pack, abs_unpacked_sub]

section
variable {x y : Float} (h : x.toModel.unpack.abs = y.toModel.unpack.abs)
include h

theorem isInf_congr : x.isInf = y.isInf :=
  calc x.isInf = x.toModel.unpack.abs.isInf := (isInf_abs _).symm
    _ = y.toModel.unpack.abs.isInf := by rw [h]
    _ = y.isInf := isInf_abs _

theorem isNaN_congr : x.isNaN = y.isNaN :=
  calc x.isNaN = x.toModel.unpack.abs.isNaN := (isNaN_abs _).symm
    _ = y.toModel.unpack.abs.isNaN := by rw [h]
    _ = y.isNaN := isNaN_abs _

theorem abs_congr : x.abs = y.abs :=
  congrArg (fun u => Float.ofModel (pack u)) h

end

end Float

/-! ## Distances -/

/-- The signs of the legs do not matter. -/
theorem hypotenuse_congr {x y x' y' : Float}
    (hx : x.toModel.unpack.abs = x'.toModel.unpack.abs)
    (hy : y.toModel.unpack.abs = y'.toModel.unpack.abs) : hypotenuse x y = hypotenuse x' y' := by
  simp only [hypotenuse, Float.isInf_congr hx, Float.isInf_congr hy, Float.isNaN_congr hx,
    Float.isNaN_congr hy, Float.abs_congr hx, Float.abs_congr hy]

theorem Location.distance_comm (a b : Location) : a.distance b = b.distance a :=
  hypotenuse_congr (Float.abs_unpack_sub ..) (Float.abs_unpack_sub ..)

end Geocast
