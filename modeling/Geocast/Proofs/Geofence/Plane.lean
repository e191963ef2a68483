import Mathlib

/-! # Segments in the plane

The tests on edges that geofences are made of, with exact numbers. If two segments share no point,
then one of them is on the same side of the other at all heights that they have in common
(`exists_order`). So whether the ray from a point crosses an edge changes along a way that avoids
the edge only as the ends of the edge come into the shade of the way (`crossedFrom_bne`), which is
what makes the parity of crossings count. Two segments that do share a point cross, or an end of one
lies on the other (`cross_or_touch`). -/

namespace Geocast

/-- A point of the plane: the longitude and the latitude of a place. -/
abbrev Point := ℚ × ℚ

namespace Plane

open AffineMap (lineMap)

variable {p q a b c w : Point} {e : Point × Point} {y r s : ℚ}

@[simp] theorem lineMap_fst (a b : Point) (t : ℚ) : (lineMap a b t).1 = a.1 + t * (b.1 - a.1) := by
  rw [AffineMap.fst_lineMap, AffineMap.lineMap_apply_ring', add_comm]

@[simp] theorem lineMap_snd (a b : Point) (t : ℚ) : (lineMap a b t).2 = a.2 + t * (b.2 - a.2) := by
  rw [AffineMap.snd_lineMap, AffineMap.lineMap_apply_ring', add_comm]

theorem mem_segment_iff : p ∈ segment ℚ a b ↔ ∃ t : ℚ, (0 ≤ t ∧ t ≤ 1) ∧ lineMap a b t = p := by
  rw [segment_eq_image_lineMap]
  rfl

theorem lineMap_mem {t : ℚ} (ha : a ∈ segment ℚ p q) (hb : b ∈ segment ℚ p q) (h0 : 0 ≤ t)
    (h1 : t ≤ 1) : lineMap a b t ∈ segment ℚ p q :=
  (convex_segment p q).segment_subset ha hb (mem_segment_iff.2 ⟨t, ⟨h0, h1⟩, rfl⟩)

/-! ## Heights -/

/-- Whether exactly one end of an edge is above a height. -/
def straddles (e : Point × Point) (y : ℚ) : Bool := decide (y < e.1.2) != decide (y < e.2.2)

/-- Where the line through an edge has a given height. -/
def abscissa (e : Point × Point) (y : ℚ) : ℚ :=
  e.1.1 + (y - e.1.2) / (e.2.2 - e.1.2) * (e.2.1 - e.1.1)

/-- Whether the ray from `p` towards greater longitudes crosses the edge. -/
def crossedFrom (p : Point) (e : Point × Point) : Bool :=
  straddles e p.2 && decide (p.1 < abscissa e p.2)

/-- Whether the ray from `p` towards lesser longitudes crosses the edge, which here owns the end of
higher latitude only. -/
def shades (e : Point × Point) (p : Point) : Bool :=
  (decide (e.1.2 < p.2) != decide (e.2.2 < p.2)) && decide (abscissa e p.2 < p.1)

theorem abscissa_mem (hne : e.1.2 ≠ e.2.2)
    (h : e.1.2 ≤ y ∧ y ≤ e.2.2 ∨ e.2.2 ≤ y ∧ y ≤ e.1.2) :
    (abscissa e y, y) ∈ segment ℚ e.1 e.2 := by
  have hsub : e.2.2 - e.1.2 ≠ 0 := sub_ne_zero.2 hne.symm
  refine mem_segment_iff.2 ⟨(y - e.1.2) / (e.2.2 - e.1.2), ?_, ?_⟩
  · rcases h with ⟨h1, h2⟩ | ⟨h1, h2⟩
    · have hpos : 0 < e.2.2 - e.1.2 := lt_of_le_of_ne (by linarith) hsub.symm
      exact ⟨div_nonneg (by linarith) hpos.le, (div_le_one hpos).2 (by linarith)⟩
    · have hneg : e.2.2 - e.1.2 < 0 := lt_of_le_of_ne (by linarith) hsub
      exact ⟨div_nonneg_of_nonpos (by linarith) hneg.le, (div_le_one_of_neg hneg).2 (by linarith)⟩
  · refine Prod.ext ?_ ?_
    · rw [lineMap_fst, abscissa]
    · rw [lineMap_snd, div_mul_cancel₀ _ hsub, add_sub_cancel]

theorem mem_of_straddles (h : straddles e y) : (abscissa e y, y) ∈ segment ℚ e.1 e.2 := by
  rcases lt_or_ge y e.1.2 with h1 | h1 <;> rcases lt_or_ge y e.2.2 with h2 | h2
  · simp [straddles, h1, h2] at h
  · exact abscissa_mem (h2.trans_lt h1).ne' (.inr ⟨h2, h1.le⟩)
  · exact abscissa_mem (h1.trans_lt h2).ne (.inl ⟨h1, h2.le⟩)
  · simp [straddles, not_lt.2 h1, not_lt.2 h2] at h

theorem mem_of_shades (h : decide (e.1.2 < y) != decide (e.2.2 < y)) :
    (abscissa e y, y) ∈ segment ℚ e.1 e.2 := by
  rcases lt_or_ge e.1.2 y with h1 | h1 <;> rcases lt_or_ge e.2.2 y with h2 | h2
  · simp [h1, h2] at h
  · exact abscissa_mem (h1.trans_le h2).ne (.inl ⟨h1.le, h2⟩)
  · exact abscissa_mem (h2.trans_le h1).ne' (.inr ⟨h2.le, h1⟩)
  · simp [not_lt.2 h1, not_lt.2 h2] at h

/-- One of two segments without a common point is to the left of the other wherever there are
points of both at one height. -/
theorem exists_order (hdisjoint : Disjoint (segment ℚ p q) (segment ℚ a b)) :
    ∃ left : Bool, ∀ u ∈ segment ℚ p q, ∀ v ∈ segment ℚ a b, u.2 = v.2 →
      decide (u.1 < v.1) = left := by
  -- between a height where one is to the left and a height where it is not they would meet
  have hsame {u v u' v' : Point} (hu : u ∈ segment ℚ p q) (hv : v ∈ segment ℚ a b)
      (hu' : u' ∈ segment ℚ p q) (hv' : v' ∈ segment ℚ a b) (h : u.2 = v.2) (h' : u'.2 = v'.2)
      (hlt : u.1 < v.1) : u'.1 < v'.1 := by
    by_contra hnot
    rw [not_lt] at hnot
    have hpos : 0 < (v.1 - u.1) + (u'.1 - v'.1) := by linarith
    set t := (v.1 - u.1) / ((v.1 - u.1) + (u'.1 - v'.1)) with ht
    have h0 : 0 ≤ t := div_nonneg (by linarith) hpos.le
    have h1 : t ≤ 1 := (div_le_one hpos).2 (by linarith)
    have hmul : t * ((v.1 - u.1) + (u'.1 - v'.1)) = v.1 - u.1 := div_mul_cancel₀ _ hpos.ne'
    have hmeet : lineMap u u' t = lineMap v v' t := by
      refine Prod.ext ?_ ?_
      · rw [lineMap_fst, lineMap_fst]
        linear_combination hmul
      · rw [lineMap_snd, lineMap_snd, h, h']
    exact Set.disjoint_left.1 hdisjoint (lineMap_mem hu hu' h0 h1)
      (hmeet ▸ lineMap_mem hv hv' h0 h1)
  by_cases hex : ∃ u ∈ segment ℚ p q, ∃ v ∈ segment ℚ a b, u.2 = v.2 ∧ u.1 < v.1
  · obtain ⟨u, hu, v, hv, h, hlt⟩ := hex
    exact ⟨true, fun u' hu' v' hv' h' => decide_eq_true (hsame hu hv hu' hv' h h' hlt)⟩
  · exact ⟨false, fun u hu v hv h => decide_eq_false fun hlt => hex ⟨u, hu, v, hv, h, hlt⟩⟩

/-- Along the way from `p` to `q`, which does not meet the edge from `a` to `b`, the crossing of the
edge changes if one of its ends, but not the other, is in the shade of the way. -/
theorem crossedFrom_bne (hdisjoint : Disjoint (segment ℚ p q) (segment ℚ a b)) :
    (crossedFrom p (a, b) != crossedFrom q (a, b)) = (shades (p, q) a != shades (p, q) b) := by
  obtain ⟨left, hleft⟩ := exists_order hdisjoint
  have hcrossed {u : Point} (hu : u ∈ segment ℚ p q) :
      crossedFrom u (a, b) = (straddles (a, b) u.2 && left) := by
    cases h : straddles (a, b) u.2 with
    | false => simp [crossedFrom, h]
    | true => simp only [crossedFrom, h, ← hleft u hu _ (mem_of_straddles h) rfl]
  have hshades {v : Point} (hv : v ∈ segment ℚ a b) :
      shades (p, q) v = ((decide (p.2 < v.2) != decide (q.2 < v.2)) && left) := by
    cases h : decide (p.2 < v.2) != decide (q.2 < v.2) with
    | false => simp [shades, h]
    | true => simp only [shades, h, ← hleft _ (mem_of_shades (e := (p, q)) h) v hv rfl]
  rw [hcrossed (left_mem_segment ..), hcrossed (right_mem_segment ..),
    hshades (left_mem_segment ..), hshades (right_mem_segment ..)]
  simp only [straddles]
  generalize decide (p.2 < a.2) = pa, decide (p.2 < b.2) = pb, decide (q.2 < a.2) = qa,
    decide (q.2 < b.2) = qb
  clear hleft hcrossed hshades
  decide +revert

/-! ## Segments that meet -/

/-- On which side of the way from `e.1` to `e.2` a point lies, as the sign of the result. -/
def side (e : Point × Point) (c : Point) : ℚ :=
  (e.2.1 - e.1.1) * (c.2 - e.1.2) - (e.2.2 - e.1.2) * (c.1 - e.1.1)

/-- Whether two numbers lie on different sides of zero. -/
def Opposite (x y : ℚ) : Prop := 0 < x ∧ y < 0 ∨ x < 0 ∧ 0 < y

theorem side_lineMap (e : Point × Point) (u v : Point) (t : ℚ) :
    side e (lineMap u v t) = (1 - t) * side e u + t * side e v := by
  simp only [side, lineMap_fst, lineMap_snd]
  ring

theorem side_of_mem (h : w ∈ segment ℚ e.1 e.2) : side e w = 0 := by
  obtain ⟨t, -, rfl⟩ := mem_segment_iff.1 h
  simp only [side, lineMap_fst, lineMap_snd]
  ring

/-- A line through a point of a segment separates its ends, or it holds one of them or both. -/
theorem opposite_or_zero (hw : w ∈ segment ℚ p q) (h : side e w = 0) :
    p = w ∨ q = w ∨ Opposite (side e p) (side e q) ∨ side e p = 0 ∧ side e q = 0 := by
  obtain ⟨t, ⟨h0, h1⟩, rfl⟩ := mem_segment_iff.1 hw
  rw [side_lineMap] at h
  rcases h0.eq_or_lt with rfl | h0
  · exact .inl (by simp)
  rcases h1.eq_or_lt with rfl | h1
  · exact .inr (.inl (by simp))
  have hpos : 0 < 1 - t := sub_pos.2 h1
  refine .inr (.inr ?_)
  rcases lt_trichotomy (side e p) 0 with hp | hp | hp
  · have hq : 0 < t * side e q := by linarith [mul_neg_of_pos_of_neg hpos hp]
    exact .inl (.inr ⟨hp, (mul_pos_iff_of_pos_left h0).1 hq⟩)
  · have hq : t * side e q = 0 := by simpa [hp] using h
    exact .inr ⟨hp, (mul_eq_zero.1 hq).resolve_left h0.ne'⟩
  · have hq : t * side e q < 0 := by linarith [mul_pos hpos hp]
    exact .inl (.inl ⟨hp, (pos_iff_neg_of_mul_neg hq).1 h0⟩)

/-- Points that lie on neither side of an edge lie on the line through it. -/
theorem exists_lineMap (hne : a ≠ b) (h : side (a, b) c = 0) : ∃ t : ℚ, lineMap a b t = c := by
  rw [side, sub_eq_zero] at h
  by_cases hfst : b.1 - a.1 = 0
  · have hsnd : b.2 - a.2 ≠ 0 := fun hsnd =>
      hne (Prod.ext (sub_eq_zero.1 hfst).symm (sub_eq_zero.1 hsnd).symm)
    refine ⟨(c.2 - a.2) / (b.2 - a.2), Prod.ext ?_ ?_⟩
    · have hc : c.1 - a.1 = 0 := by simpa [hfst, hsnd] using h.symm
      rw [lineMap_fst, hfst, mul_zero, add_zero, ← sub_eq_zero.1 hc]
    · rw [lineMap_snd, div_mul_cancel₀ _ hsnd, add_sub_cancel]
  · refine ⟨(c.1 - a.1) / (b.1 - a.1), Prod.ext ?_ ?_⟩
    · rw [lineMap_fst, div_mul_cancel₀ _ hfst, add_sub_cancel]
    · have hc : (c.1 - a.1) * (b.2 - a.2) = (c.2 - a.2) * (b.1 - a.1) := by linarith
      rw [lineMap_snd, div_mul_eq_mul_div, hc, mul_div_cancel_right₀ _ hfst, add_sub_cancel]

/-- Of two intervals with a common point, one holds an end of the other. -/
theorem uIcc_end {x y x' y' t : ℚ} (h : t ∈ Set.uIcc x y) (h' : t ∈ Set.uIcc x' y') :
    x ∈ Set.uIcc x' y' ∨ y ∈ Set.uIcc x' y' ∨ x' ∈ Set.uIcc x y := by
  simp only [Set.mem_uIcc] at *
  grind

/-- Segments on one line that have a point in common. -/
theorem touch_of_side_eq_zero (hp : side (a, b) p = 0) (hq : side (a, b) q = 0)
    (hpq : w ∈ segment ℚ p q) (hab : w ∈ segment ℚ a b) :
    p ∈ segment ℚ a b ∨ q ∈ segment ℚ a b ∨ a ∈ segment ℚ p q := by
  by_cases hne : a = b
  · subst hne
    rw [segment_same] at hab
    exact .inr (.inr (hab ▸ hpq))
  · obtain ⟨s, rfl⟩ := exists_lineMap hne hp
    obtain ⟨t, rfl⟩ := exists_lineMap hne hq
    have himage (x y : ℚ) : segment ℚ (lineMap a b x) (lineMap a b y) =
        lineMap a b '' Set.uIcc x y := by
      rw [← segment_eq_uIcc, image_segment]
    have hends : segment ℚ a b = lineMap a b '' Set.uIcc (0 : ℚ) 1 := by
      simpa using himage 0 1
    have hmem {x : ℚ} {S : Set ℚ} : lineMap a b x ∈ lineMap a b '' S ↔ x ∈ S :=
      (AffineMap.lineMap_injective ℚ hne).mem_set_image
    have ha : a ∈ lineMap a b '' Set.uIcc s t ↔ 0 ∈ Set.uIcc s t := by
      simpa using hmem (x := 0) (S := Set.uIcc s t)
    rw [himage] at hpq ⊢
    rw [hends] at hab ⊢
    obtain ⟨r, hr, rfl⟩ := hpq
    rw [hmem, hmem, ha]
    exact uIcc_end hr (hmem.1 hab)

/-- Segments with a common point cross, or an end of one of them is on the other. -/
theorem cross_or_touch (hpq : w ∈ segment ℚ p q) (hab : w ∈ segment ℚ a b) :
    Opposite (side (a, b) p) (side (a, b) q) ∧ Opposite (side (p, q) a) (side (p, q) b) ∨
      p ∈ segment ℚ a b ∨ q ∈ segment ℚ a b ∨ a ∈ segment ℚ p q ∨ b ∈ segment ℚ p q := by
  rcases opposite_or_zero hpq (side_of_mem (e := (a, b)) hab) with rfl | rfl | h | ⟨hp, hq⟩
  · exact .inr (.inl hab)
  · exact .inr (.inr (.inl hab))
  · rcases opposite_or_zero hab (side_of_mem (e := (p, q)) hpq) with rfl | rfl | h' | ⟨ha, hb⟩
    · exact .inr (.inr (.inr (.inl hpq)))
    · exact .inr (.inr (.inr (.inr hpq)))
    · exact .inl ⟨h, h'⟩
    · rcases touch_of_side_eq_zero ha hb hab hpq with h | h | h
      · exact .inr (.inr (.inr (.inl h)))
      · exact .inr (.inr (.inr (.inr h)))
      · exact .inr (.inl h)
  · rcases touch_of_side_eq_zero hp hq hpq hab with h | h | h
    · exact .inr (.inl h)
    · exact .inr (.inr (.inl h))
    · exact .inr (.inr (.inr (.inl h)))

/-! ## Distances -/

/-- The square of the distance of two points. -/
def distSq (p q : Point) : ℚ := (p.1 - q.1) ^ 2 + (p.2 - q.2) ^ 2

/-- The point of an edge that is nearest to `p`: the projection of `p`, moved to the nearer end when
it falls outside. -/
def foot (p : Point) (e : Point × Point) : Point :=
  lineMap e.1 e.2 (max 0 (min 1
    (((p.1 - e.1.1) * (e.2.1 - e.1.1) + (p.2 - e.1.2) * (e.2.2 - e.1.2)) / distSq e.2 e.1)))

/-- Whether `p` is within a disc. There are no discs of negative radius. -/
def Within (r : ℚ) (c p : Point) : Prop := 0 ≤ r ∧ distSq c p ≤ r ^ 2

instance (r : ℚ) (c p : Point) : Decidable (Within r c p) :=
  inferInstanceAs (Decidable (_ ∧ _))

theorem distSq_nonneg (p q : Point) : 0 ≤ distSq p q := by
  unfold distSq
  positivity

theorem distSq_eq_zero : distSq p q = 0 ↔ p = q := by
  rw [distSq, add_eq_zero_iff_of_nonneg (sq_nonneg _) (sq_nonneg _), sq_eq_zero_iff, sq_eq_zero_iff,
    sub_eq_zero, sub_eq_zero, Prod.ext_iff]

theorem foot_mem (p : Point) (e : Point × Point) : foot p e ∈ segment ℚ e.1 e.2 :=
  mem_segment_iff.2 ⟨_, ⟨le_max_left .., max_le zero_le_one (min_le_left ..)⟩, rfl⟩

/-- Of the numbers between 0 and 1 the one nearest to `x` is got by clamping. -/
theorem clamp_nearest (x : ℚ) {t : ℚ} (h0 : 0 ≤ t) (h1 : t ≤ 1) :
    0 ≤ (t - max 0 (min 1 x)) * (t + max 0 (min 1 x) - 2 * x) := by
  rcases le_total x 0 with hx | hx
  · rw [max_eq_left ((min_le_right 1 x).trans hx)]
    exact mul_nonneg (by linarith) (by linarith)
  rw [max_eq_right (le_min zero_le_one hx)]
  rcases le_total x 1 with hx' | hx'
  · rw [min_eq_right hx', show t + x - 2 * x = t - x by ring]
    exact mul_self_nonneg _
  · rw [min_eq_left hx']
    exact mul_nonneg_of_nonpos_of_nonpos (by linarith) (by linarith)

theorem distSq_foot_le (p : Point) (hw : w ∈ segment ℚ e.1 e.2) :
    distSq p (foot p e) ≤ distSq p w := by
  obtain ⟨t, ⟨h0, h1⟩, rfl⟩ := mem_segment_iff.1 hw
  set k := (p.1 - e.1.1) * (e.2.1 - e.1.1) + (p.2 - e.1.2) * (e.2.2 - e.1.2) with hk
  have hquadratic (x : ℚ) :
      distSq p (lineMap e.1 e.2 x) = distSq p e.1 - 2 * k * x + distSq e.2 e.1 * x ^ 2 := by
    simp only [distSq, lineMap_fst, lineMap_snd, hk]
    ring
  rw [foot, ← hk, hquadratic, hquadratic]
  rcases (distSq_nonneg e.2 e.1).eq_or_lt with hd | hd
  · have hsame : e.2 = e.1 := distSq_eq_zero.1 hd.symm
    have hk0 : k = 0 := by simp [hk, hsame]
    rw [hk0, ← hd]
    simp
  · have hkd : k = distSq e.2 e.1 * (k / distSq e.2 e.1) := (mul_div_cancel₀ k hd.ne').symm
    have hnear := mul_nonneg hd.le (clamp_nearest (k / distSq e.2 e.1) h0 h1)
    generalize k / distSq e.2 e.1 = x at *
    rw [hkd]
    linarith

/-- The points of an edge are their own nearest points. -/
theorem foot_eq_iff : foot p e = p ↔ p ∈ segment ℚ e.1 e.2 := by
  refine ⟨fun h => h ▸ foot_mem p e, fun h => ?_⟩
  have hle : distSq p (foot p e) ≤ 0 := (distSq_foot_le p h).trans_eq (distSq_eq_zero.2 rfl)
  exact (distSq_eq_zero.1 (le_antisymm hle (distSq_nonneg ..))).symm

/-- A disc that holds `p` holds the way to it from the center. -/
theorem Within.of_mem (h : Within r c p) (hw : w ∈ segment ℚ c p) : Within r c w := by
  obtain ⟨t, ⟨h0, h1⟩, rfl⟩ := mem_segment_iff.1 hw
  have hscaled : distSq c (lineMap c p t) = t ^ 2 * distSq c p := by
    simp only [distSq, lineMap_fst, lineMap_snd]
    ring
  refine ⟨h.1, hscaled ▸ ?_⟩
  calc t ^ 2 * distSq c p ≤ 1 * distSq c p :=
        mul_le_mul_of_nonneg_right (pow_le_one₀ h0 h1) (distSq_nonneg c p)
    _ ≤ r ^ 2 := by rw [one_mul]; exact h.2

/-- Discs with a common point are no farther apart than their radii add up to. -/
theorem Within.add (h : Within r a p) (h' : Within s b p) : Within (r + s) a b := by
  obtain ⟨hr, ha⟩ := h
  obtain ⟨hs, hb⟩ := h'
  refine ⟨add_nonneg hr hs, ?_⟩
  set k := (a.1 - p.1) * (b.1 - p.1) + (a.2 - p.2) * (b.2 - p.2) with hk
  have hlagrange : distSq a p * distSq b p =
      k ^ 2 + ((a.1 - p.1) * (b.2 - p.2) - (a.2 - p.2) * (b.1 - p.1)) ^ 2 := by
    simp only [distSq, hk]
    ring
  have hcauchy : k ^ 2 ≤ (r * s) ^ 2 :=
    calc k ^ 2 ≤ distSq a p * distSq b p :=
          (le_add_of_nonneg_right (sq_nonneg _)).trans_eq hlagrange.symm
      _ ≤ r ^ 2 * s ^ 2 := mul_le_mul ha hb (distSq_nonneg ..) (sq_nonneg r)
      _ = (r * s) ^ 2 := (mul_pow ..).symm
  have hk' : -(r * s) ≤ k := (abs_le.1 (abs_le_of_sq_le_sq hcauchy (mul_nonneg hr hs))).1
  calc distSq a b = distSq a p + distSq b p - 2 * k := by
        simp only [distSq, hk]
        ring
    _ ≤ (r + s) ^ 2 := by linarith

end Plane

end Geocast
