import Geocast.Proofs.Geofence.Plane

/-! # Outlines in the plane

An outline is a system of closed rings of edges; it may cross itself, and what is inside is what is
surrounded by an odd number of its turns. Whether a point is surrounded does not change along a way
that avoids the outline (`Outline.surrounds_eq`). So outlines that have a point in common meet, or
one surrounds an end of an edge of the other (`Outline.overlap`), and an outline with a point in a
disc surrounds the center or comes near to it (`Outline.surrounds_or_near`). -/

namespace Geocast

/-! ## Parity -/

/-- Whether an odd number of elements have a property. -/
def parity {α : Type} (f : α → Bool) (l : List α) : Bool :=
  l.foldl (fun odd x => odd != f x) false

section
variable {α β : Type} {f g : α → Bool} {l : List α}

theorem foldl_bne (f : α → Bool) (l : List α) (b : Bool) :
    l.foldl (fun odd x => odd != f x) b = (b != parity f l) := by
  induction l generalizing b with
  | nil => simp [parity]
  | cons x l ih =>
    rw [parity, List.foldl_cons, List.foldl_cons, ih, ih, Bool.false_bne, Bool.bne_assoc]

@[simp] theorem parity_nil : parity f [] = false := rfl

@[simp] theorem parity_cons (x : α) : parity f (x :: l) = (f x != parity f l) := by
  rw [parity, List.foldl_cons, foldl_bne, Bool.false_bne]

theorem parity_map (f : β → Bool) (g : α → β) (l : List α) :
    parity f (l.map g) = parity (fun x => f (g x)) l :=
  List.foldl_map

theorem parity_congr (h : ∀ x ∈ l, f x = g x) : parity f l = parity g l :=
  List.foldl_ext _ _ _ fun b x hx => by rw [h x hx]

theorem parity_bne (f g : α → Bool) (l : List α) :
    (parity f l != parity g l) = parity (fun x => f x != g x) l := by
  induction l with
  | nil => rfl
  | cons x l ih =>
    simp only [parity_cons, ← ih]
    generalize f x = a, g x = b, parity f l = c, parity g l = d
    decide +revert

theorem parity_perm {l l' : List α} (h : l.Perm l') : parity f l = parity f l' := by
  induction h with
  | nil => rfl
  | cons x _ ih => rw [parity_cons, parity_cons, ih]
  | swap x y l =>
    simp only [parity_cons]
    generalize f x = a, f y = b, parity f l = c
    decide +revert
  | trans _ _ ih ih' => exact ih.trans ih'

theorem exists_of_parity (h : parity f l) : ∃ x ∈ l, f x := by
  induction l with
  | nil => cases h
  | cons x l ih =>
    rw [parity_cons] at h
    cases hx : f x with
    | true => exact ⟨x, List.mem_cons_self, hx⟩
    | false =>
      obtain ⟨y, hy, hfy⟩ := ih (by simpa [hx] using h)
      exact ⟨y, List.mem_cons_of_mem x hy, hfy⟩

end

/-! ## Outlines -/

/-- A system of edges along which every mark on the ends changes an even number of times. -/
structure Outline where
  edges : List (Point × Point)
  closed : ∀ f : Point → Bool, parity (fun e => f e.1 != f e.2) edges = false

namespace Outline

open Plane

variable {o o' : Outline} {p q c : Point} {e : Point × Point} {r : ℚ}

/-- Whether a ray from `p` crosses an odd number of edges. -/
def surrounds (o : Outline) (p : Point) : Bool := parity (crossedFrom p) o.edges

/-- The inside and the outline itself. -/
def Holds (o : Outline) (p : Point) : Prop :=
  o.surrounds p ∨ ∃ e ∈ o.edges, p ∈ segment ℚ e.1 e.2

/-- No point lies on both outlines. -/
def Apart (o o' : Outline) : Prop :=
  ∀ e ∈ o.edges, ∀ e' ∈ o'.edges, Disjoint (segment ℚ e.1 e.2) (segment ℚ e'.1 e'.2)

theorem Apart.symm (H : Apart o o') : Apart o' o :=
  fun e he e' he' => (H e' he' e he).symm

theorem surrounds_eq (h : ∀ e ∈ o.edges, Disjoint (segment ℚ p q) (segment ℚ e.1 e.2)) :
    o.surrounds p = o.surrounds q := by
  have hsame : (o.surrounds p != o.surrounds q) = false :=
    calc (o.surrounds p != o.surrounds q)
        = parity (fun e => crossedFrom p e != crossedFrom q e) o.edges := parity_bne ..
      _ = parity (fun e => shades (p, q) e.1 != shades (p, q) e.2) o.edges :=
        parity_congr fun e he => crossedFrom_bne (h e he)
      _ = false := o.closed (shades (p, q))
  simpa using hsame

/-- Either all points of an edge of the one outline are inside of the other, or none. -/
theorem Apart.surrounds_eq (H : Apart o o') (he : e ∈ o.edges) (hp : p ∈ segment ℚ e.1 e.2)
    (hq : q ∈ segment ℚ e.1 e.2) : o'.surrounds p = o'.surrounds q :=
  Outline.surrounds_eq fun e' he' =>
    (H e he e' he').mono_left ((convex_segment e.1 e.2).segment_subset hp hq)

/-- On the ray from `p`, the edge is crossed before any edge of the other outline. So the crossing
is surrounded by the other outline as `p` is, and then the whole edge is. -/
theorem Apart.surrounds_end (H : Apart o o') (he : e ∈ o.edges) (hcrossed : crossedFrom p e)
    (hfirst : ∀ e' ∈ o'.edges, crossedFrom p e' → abscissa e p.2 ≤ abscissa e' p.2) :
    o'.surrounds e.1 = o'.surrounds p := by
  obtain ⟨hstraddles, hleft⟩ := Bool.and_eq_true_iff.1 hcrossed
  rw [decide_eq_true_eq] at hleft
  have hmem := mem_of_straddles hstraddles
  rw [H.surrounds_eq he (left_mem_segment ..) hmem]
  refine parity_congr fun e' he' => ?_
  cases hstraddles' : straddles e' p.2 with
  | false => simp only [crossedFrom, hstraddles', Bool.false_and]
  | true =>
    simp only [crossedFrom, hstraddles', Bool.true_and, decide_eq_decide]
    refine ⟨hleft.trans, fun hlt => ?_⟩
    refine lt_of_le_of_ne (hfirst e' he' ?_) fun heq => ?_
    · simp [crossedFrom, hstraddles', hlt]
    · exact Set.disjoint_left.1 (H e he e' he') hmem (heq ▸ mem_of_straddles hstraddles')

theorem exists_first (h : o.surrounds p) : ∃ e ∈ o.edges, crossedFrom p e ∧
    ∀ e' ∈ o.edges, crossedFrom p e' → abscissa e p.2 ≤ abscissa e' p.2 := by
  obtain ⟨e, he, hcrossed⟩ := exists_of_parity h
  obtain ⟨f, ⟨hf, hfcrossed⟩, hmin⟩ :=
    Set.exists_min_image {e | e ∈ o.edges ∧ crossedFrom p e} (abscissa · p.2)
      (o.edges.finite_toSet.subset fun _ h => h.1) ⟨e, he, hcrossed⟩
  exact ⟨f, hf, hfcrossed, fun e' he' hcrossed' => hmin e' ⟨he', hcrossed'⟩⟩

/-- Two outlines that share a point, be it inside or on them, meet or one of them surrounds an end
of an edge of the other. -/
theorem overlap (h : o.Holds p) (h' : o'.Holds p) (H : Apart o o') :
    (∃ e ∈ o.edges, o'.surrounds e.1) ∨ ∃ e ∈ o'.edges, o.surrounds e.1 := by
  rcases h with hin | ⟨e, he, hp⟩
  · rcases h' with hin' | ⟨e', he', hp⟩
    · obtain ⟨e, he, hcrossed, hfirst⟩ := exists_first hin
      obtain ⟨e', he', hcrossed', hfirst'⟩ := exists_first hin'
      rcases le_total (abscissa e p.2) (abscissa e' p.2) with hle | hle
      · have hsame := H.surrounds_end he hcrossed fun f hf hf' => hle.trans (hfirst' f hf hf')
        exact .inl ⟨e, he, hsame.trans hin'⟩
      · have hsame := H.symm.surrounds_end he' hcrossed' fun f hf hf' => hle.trans (hfirst f hf hf')
        exact .inr ⟨e', he', hsame.trans hin⟩
    · have hsame := H.symm.surrounds_eq he' (left_mem_segment ..) hp
      exact .inr ⟨e', he', hsame.trans hin⟩
  · rcases h' with hin' | ⟨e', he', hp'⟩
    · have hsame := H.surrounds_eq he (left_mem_segment ..) hp
      exact .inl ⟨e, he, hsame.trans hin'⟩
    · exact absurd hp' (Set.disjoint_left.1 (H e he e' he') hp)

/-- An outline and a disc that share a point: the center is inside, or an edge is near enough. -/
theorem surrounds_or_near (h : o.Holds p) (hc : Within r c p) :
    o.surrounds c ∨ ∃ e ∈ o.edges, Within r c (foot c e) := by
  have hnear {w : Point} {e : Point × Point} (hw : w ∈ segment ℚ e.1 e.2) (hc : Within r c w) :
      Within r c (foot c e) :=
    ⟨hc.1, (distSq_foot_le c hw).trans hc.2⟩
  rcases h with hin | ⟨e, he, hp⟩
  · by_cases hdisjoint : ∀ e ∈ o.edges, Disjoint (segment ℚ c p) (segment ℚ e.1 e.2)
    · exact .inl ((surrounds_eq hdisjoint).trans hin)
    · push Not at hdisjoint
      obtain ⟨e, he, hmeet⟩ := hdisjoint
      obtain ⟨w, hw, hwe⟩ := Set.not_disjoint_iff.1 hmeet
      exact .inr ⟨e, he, hnear hwe (hc.of_mem hw)⟩
  · exact .inr ⟨e, he, hnear hp hc⟩

end Outline

end Geocast
