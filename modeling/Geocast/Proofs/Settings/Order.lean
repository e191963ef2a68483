import Geocast.Settings.Environment
import Mathlib.Data.List.Induction
import Mathlib.Data.List.Nodup
import Mathlib.Data.List.TakeWhile

/-! # The order in which settings are laid on

The values of the environment are kept by name, and the ranks of their names decide in which order
they are laid on; every order is one by some ranks (`exists_arrange_valuesOf`). One more variable
puts its entry at one place, where none of the name was or one with another value, and leaves all
others in their order (`Amends.arrange`). -/

namespace Geocast

namespace Setting

variable {n : String} {x : Setting} {rank : String → Nat} {e : String × Setting}
  {es es' front back old : List (String × Setting)}

theorem place_perm (rank : String → Nat) (e : String × Setting) (es : List (String × Setting)) :
    (place rank e es).Perm (e :: es) := by
  induction es with
  | nil => exact .refl _
  | cons f es ih =>
    rw [place]
    split
    · exact .refl _
    · exact (ih.cons f).trans (.swap e f es)

theorem arrange_perm (rank : String → Nat) (es : List (String × Setting)) :
    (arrange rank es).Perm es := by
  induction es with
  | nil => exact .refl _
  | cons e es ih => exact (place_perm rank e _).trans (ih.cons e)

/-! ## Every order -/

theorem place_of_le (h : ∀ f ∈ es.head?, rank e.1 ≤ rank f.1) : place rank e es = e :: es := by
  cases es with
  | nil => rfl
  | cons f es => exact if_pos (h f rfl)

theorem pairwise_place (h : es.Pairwise fun e f => rank e.1 ≤ rank f.1) :
    (place rank e es).Pairwise fun e f => rank e.1 ≤ rank f.1 := by
  induction es with
  | nil => exact List.pairwise_singleton ..
  | cons f es ih =>
    obtain ⟨hf, hes⟩ := List.pairwise_cons.1 h
    rw [place]
    split
    · next hle =>
      refine List.pairwise_cons.2 ⟨List.forall_mem_cons.2 ⟨hle, fun f' hf' => ?_⟩, h⟩
      exact Nat.le_trans hle (hf f' hf')
    · next hlt =>
      refine List.pairwise_cons.2 ⟨fun f' hf' => ?_, ih hes⟩
      rcases List.mem_cons.1 ((place_perm rank e es).mem_iff.1 hf') with rfl | hf'
      · exact Nat.le_of_not_le hlt
      · exact hf f' hf'

theorem pairwise_arrange (rank : String → Nat) (es : List (String × Setting)) :
    (arrange rank es).Pairwise fun e f => rank e.1 ≤ rank f.1 := by
  induction es with
  | nil => exact .nil
  | cons e es ih => exact pairwise_place ih

/-- Whatever order entries of different names come in, it is the one by some ranks. -/
theorem exists_arrange_eq (hes : (es.map Prod.fst).Nodup) (h : es'.Perm es) :
    ∃ rank, arrange rank es = es' := by
  have hnodup : (es'.map Prod.fst).Nodup := (h.map _).nodup_iff.2 hes
  refine ⟨(es'.map Prod.fst).idxOf, ?_⟩
  have hperm := (arrange_perm (es'.map Prod.fst).idxOf es).trans h.symm
  refine hperm.eq_of_pairwise (fun e f he hf hle hge => ?_) (pairwise_arrange ..) ?_
  · have he : e ∈ es' := hperm.mem_iff.1 he
    have hname : e.1 = f.1 :=
      (List.idxOf_inj (List.mem_map_of_mem he)).1 (Nat.le_antisymm hle hge)
    exact List.inj_on_of_nodup_map hnodup he hf hname
  · refine List.pairwise_iff_getElem.2 fun i j hi hj hij => ?_
    have hindex (k : Nat) (hk : k < es'.length) : (es'.map Prod.fst).idxOf es'[k].1 = k := by
      rw [← List.getElem_map Prod.fst]
      exact hnodup.idxOf_getElem k (by simpa using hk)
    rw [hindex i hi, hindex j hj]
    exact Nat.le_of_lt hij

/-! ## One more entry -/

/-- The second list has the entry `(n, x)` where the first has others of that name or none. -/
def Amends (n : String) (x : Setting) (es es' : List (String × Setting)) : Prop :=
  ∃ front old back, (∀ e ∈ old, e.1 = n) ∧ es = front ++ (old ++ back) ∧
    es' = front ++ (n, x) :: back

theorem put_append (m : String) (y : Setting) (es es' : List (String × Setting)) :
    put m y (es ++ es') =
      if m ∈ es.map Prod.fst then put m y es ++ es' else es ++ put m y es' := by
  induction es with
  | nil => rfl
  | cons e es ih =>
    rw [List.cons_append, put]
    by_cases he : e.1 = m
    · subst he
      simp [put]
    · rw [if_neg he, ih]
      have hmem : m ∈ (e :: es).map Prod.fst ↔ m ∈ es.map Prod.fst := by
        simp [Ne.symm he]
      by_cases hm : m ∈ es.map Prod.fst
      · rw [if_pos hm, if_pos (hmem.2 hm), put, if_neg he, List.cons_append]
      · rw [if_neg hm, if_neg fun h => hm (hmem.1 h), List.cons_append]

/-- Values of other names keep the entry where it is. -/
theorem Amends.put {m : String} (H : Amends n x es es') (hm : m ≠ n) (y : Setting) :
    Amends n x (put m y es) (put m y es') := by
  obtain ⟨front, old, back, hold, rfl, rfl⟩ := H
  have hnone : m ∉ old.map Prod.fst := fun h => by
    obtain ⟨e, he, rfl⟩ := List.mem_map.1 h
    exact hm (hold e he)
  rw [put_append, put_append, put_append, if_neg hnone, Setting.put, if_neg hm.symm]
  by_cases hfront : m ∈ front.map Prod.fst
  · rw [if_pos hfront, if_pos hfront]
    exact ⟨_, old, back, hold, rfl, rfl⟩
  · rw [if_neg hfront, if_neg hfront]
    exact ⟨front, old, _, hold, rfl, rfl⟩

theorem place_append (rank : String → Nat) (e : String × Setting)
    (es es' : List (String × Setting)) :
    place rank e (es ++ es') = if es.any (fun f => rank e.1 ≤ rank f.1) then place rank e es ++ es'
      else es ++ place rank e es' := by
  induction es with
  | nil => rfl
  | cons f es ih =>
    rw [List.cons_append, place, place, List.any_cons, ih]
    by_cases hf : rank e.1 ≤ rank f.1
    · simp [hf]
    · by_cases hes : es.any fun f => rank e.1 ≤ rank f.1
      · simp [hf, hes]
      · simp only [hf, hes, decide_false, Bool.or_self, if_neg, Bool.false_eq_true, not_false_iff,
          List.cons_append]

theorem place_of_lt (h : ∀ f ∈ es, ¬ rank e.1 ≤ rank f.1) :
    place rank e (es ++ es') = es ++ place rank e es' := by
  rw [place_append, if_neg]
  simpa using h

/-- No entry that ranks below the name `n` stands in front of the others. -/
def Begins (rank : String → Nat) (n : String) (es : List (String × Setting)) : Prop :=
  ∀ f ∈ es.head?, rank n ≤ rank f.1

theorem Begins.named (H : Begins rank n back) (hold : ∀ e ∈ old, e.1 = n) :
    Begins rank n (old ++ back) := by
  cases old with
  | nil => exact H
  | cons e old =>
    rintro f ⟨⟩
    exact Nat.le_of_eq (congrArg rank (hold e List.mem_cons_self).symm)

theorem Begins.place (H : Begins rank n es) (h : rank n ≤ rank e.1) :
    Begins rank n (place rank e es) := by
  cases es with
  | nil =>
    rintro f ⟨⟩
    exact h
  | cons f es =>
    rw [Setting.place]
    split
    · rintro f' ⟨⟩
      exact h
    · exact H

/-- Where entries of one name find their place is the same for all of them. -/
theorem exists_arrange_named (rank : String → Nat) (n : String) (back : List (String × Setting)) :
    ∃ front' back', Begins rank n back' ∧ ∀ old : List (String × Setting), (∀ e ∈ old, e.1 = n) →
      arrange rank (old ++ back) = front' ++ (old ++ back') := by
  let isBefore := fun f : String × Setting => decide (rank f.1 < rank n)
  have hback : Begins rank n ((arrange rank back).dropWhile isBefore) := fun f hf => by
    have hnot := List.head?_dropWhile_not isBefore (arrange rank back)
    rw [Option.mem_def.1 hf] at hnot
    exact Nat.le_of_not_lt (of_decide_eq_false hnot)
  refine ⟨(arrange rank back).takeWhile isBefore, _, hback, fun old hold => ?_⟩
  induction old with
  | nil => exact (List.takeWhile_append_dropWhile ..).symm
  | cons e old ih =>
    obtain ⟨he, hold⟩ := List.forall_mem_cons.1 hold
    have hfront : ∀ f ∈ (arrange rank back).takeWhile isBefore, ¬ rank e.1 ≤ rank f.1 := by
      intro f hf
      rw [he]
      exact Nat.not_le_of_lt (of_decide_eq_true (List.mem_takeWhile_imp (p := isBefore) hf))
    show place rank e (arrange rank (old ++ back)) = _
    rw [ih hold, place_of_lt hfront, place_of_le (he ▸ hback.named hold)]
    rfl

/-- The place of an entry does not depend on its value, and that of others does not depend on
whether it is there. -/
theorem Amends.arrange (H : Amends n x es es') (rank : String → Nat) :
    Amends n x (arrange rank es) (arrange rank es') := by
  obtain ⟨front, old, back, hold, rfl, rfl⟩ := H
  suffices H : ∃ front' back', Begins rank n back' ∧
      Setting.arrange rank (front ++ (old ++ back)) = front' ++ (old ++ back') ∧
      Setting.arrange rank (front ++ (n, x) :: back) = front' ++ (n, x) :: back' by
    obtain ⟨front', back', -, h, h'⟩ := H
    exact ⟨front', old, back', hold, h, h'⟩
  induction front with
  | nil =>
    obtain ⟨front', back', hback', h⟩ := exists_arrange_named rank n back
    exact ⟨front', back', hback', h old hold, h [(n, x)] (by simp)⟩
  | cons e front ih =>
    obtain ⟨front', back', hback', h, h'⟩ := ih
    show ∃ _ _, _ ∧ place rank e (Setting.arrange rank (front ++ (old ++ back))) = _ ∧
      place rank e (Setting.arrange rank (front ++ (n, x) :: back)) = _
    rw [h, h', place_append rank e front', place_append rank e front']
    by_cases hfront : front'.any fun f => rank e.1 ≤ rank f.1
    · rw [if_pos hfront, if_pos hfront]
      exact ⟨_, back', hback', rfl, rfl⟩
    rw [if_neg hfront, if_neg hfront, place]
    by_cases he : rank e.1 ≤ rank n
    · rw [if_pos he, place_of_le fun f hf => Nat.le_trans he (hback'.named hold f hf)]
      exact ⟨front' ++ [e], back', hback', by simp, by simp⟩
    · have hlt : ∀ f ∈ old, ¬ rank e.1 ≤ rank f.1 := fun f hf => hold f hf ▸ he
      rw [if_neg he, place_of_lt hlt]
      exact ⟨front', _, hback'.place (Nat.le_of_not_le he), rfl, rfl⟩

/-! ## The values of the environment -/

theorem map_fst_put (n : String) (x : Setting) (es : List (String × Setting)) :
    (put n x es).map Prod.fst =
      if n ∈ es.map Prod.fst then es.map Prod.fst else es.map Prod.fst ++ [n] := by
  induction es with
  | nil => rfl
  | cons e es ih =>
    rw [put]
    by_cases he : e.1 = n
    · subst he
      simp
    · rw [if_neg he, List.map_cons, ih]
      by_cases hes : n ∈ es.map Prod.fst
      · simp [hes]
      · simp [hes, Ne.symm he]

theorem nodup_put (n : String) (x : Setting) (h : (es.map Prod.fst).Nodup) :
    ((put n x es).map Prod.fst).Nodup := by
  rw [map_fst_put]
  split
  · exact h
  · next hn =>
    refine List.nodup_append.2 ⟨h, List.nodup_singleton n, fun m hm m' hm' heq => hn ?_⟩
    rwa [← List.mem_singleton.1 hm', ← heq]

theorem valuesOf_concat (env : List (String × String)) (v : String × String) :
    valuesOf (env ++ [v]) = putVariable (valuesOf env) v := List.foldl_concat ..

theorem nodup_valuesOf (env : List (String × String)) : ((valuesOf env).map Prod.fst).Nodup := by
  induction env using List.reverseRecOn with
  | nil => exact List.nodup_nil
  | append_singleton env v ih =>
    rw [valuesOf_concat, putVariable]
    split
    · exact nodup_put _ _ ih
    · exact ih

/-- Every order of the values of an environment is the one by some ranks. -/
theorem exists_arrange_valuesOf {env : List (String × String)} (h : es.Perm (valuesOf env)) :
    ∃ rank, arrange rank (valuesOf env) = es :=
  exists_arrange_eq (nodup_valuesOf env) h

end Setting

end Geocast
