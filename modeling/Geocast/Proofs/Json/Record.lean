import Geocast.Json.Record
import Geocast.Proofs.Json.Reading
import Geocast.Proofs.Decimal.Finite

/-! # Records read back

What the readers of records make of a record that was written: the fields of `Json.ofMembers` in
their order, the tag of a variant apart from its other fields, and an absent value out of null. -/

namespace Geocast

namespace Json

/-! ## Soundness -/

@[simp] theorem isSound_text (d : Nat) (s : String) : (text s).isSound d = true := by
  simp [text, isSound]

theorem soundMembers_map (d : Nat) (ms : List (String × Json)) :
    soundMembers d (ms.map fun (name, v) => (some name, v)) = ms.all (·.2.isSound d) := by
  induction ms with
  | nil => rfl
  | cons m ms ih => simp [soundMembers, ih]

theorem soundItems_eq (d : Nat) (vs : List Json) : soundItems d vs = vs.all (·.isSound d) := by
  induction vs with
  | nil => rfl
  | cons v vs ih => simp [soundItems, ih]

@[simp] theorem isSound_ofMembers (d : Nat) (ms : List (String × Json)) :
    (ofMembers ms).isSound (d + 1) = ms.all (·.2.isSound d) := by
  simp [ofMembers, isSound, soundMembers_map]

@[simp] theorem isSound_array (d : Nat) (vs : List Json) :
    (array vs).isSound (d + 1) = vs.all (·.isSound d) := by
  simp [isSound, soundItems_eq]

theorem isSound_ofOption {α : Type} {f : α → Json} {d : Nat} {o : Option α}
    (h : ∀ a ∈ o, (f a).isSound d) : (ofOption f o).isSound d := by
  cases o with
  | none => rfl
  | some a => exact h a rfl

/-! ## Doubles -/

/-- A double that comes back when its text is read: what one may expect of finite doubles. -/
def ReadsBack (x : Float) : Prop := (parse (float x).render).bind float? = some x

instance (x : Float) : Decidable (ReadsBack x) :=
  inferInstanceAs (Decidable ((parse (float x).render).bind float? = some x))

theorem ReadsBack.float? {x : Float} (h : ReadsBack x) : (float x).float? = some x := by
  unfold ReadsBack at h
  unfold float at *
  split at h
  · rwa [parse_render_number] at h
  · cases h

/-- A double that is not finite is written as null, so nothing is asked of it. -/
theorem float_of_not_isFinite {x : Float} (h : isFiniteFloat x = false) : float x = .null := by
  simp [float, Numeral.ofFloat?, h]

theorem isSound_float {x : Float} (h : isFiniteFloat x → ReadsBack x) (d : Nat) :
    (float x).isSound d := by
  cases hx : isFiniteFloat x with
  | false => rw [float_of_not_isFinite hx]; rfl
  | true =>
    have h := (h hx).float?
    unfold float at *
    split at h
    · next n _ => exact Option.isSome_iff_exists.2 ⟨x, h⟩
    · rfl

theorem isFiniteFloat_of_float? {v : Json} {x : Float} (h : v.float? = some x) :
    isFiniteFloat x := by
  cases v with
  | number n => exact Numeral.isFiniteFloat_of_toFloat? h
  | _ => cases h

/-! ## Fields -/

@[simp] theorem string?_text (s : String) : (text s).string? = some s := rfl

@[simp] theorem required_some {α : Type} (f : Json → Option α) (v : Json) :
    required f (some v) = f v := rfl

theorem mapM_eq_some {α β : Type} {f : α → Option β} {g : α → β} {l : List α}
    (h : ∀ a ∈ l, f a = some (g a)) : l.mapM f = some (l.map g) := by
  induction l with
  | nil => rfl
  | cons a l ih =>
    rw [List.mapM_cons, h a List.mem_cons_self, ih fun b hb => h b (List.mem_cons_of_mem a hb)]
    rfl

variable {name : String} {ms : List (String × Json)}

theorem filter_of_notMem (h : name ∉ ms.map Prod.fst) :
    (ms.map fun (n, v) => (some n, v)).filter (·.1 = some name) = [] := by
  simp only [List.filter_eq_nil_iff, List.mem_map, decide_eq_true_eq]
  rintro _ ⟨m, hm, rfl⟩ heq
  exact h (Option.some_inj.1 heq ▸ List.mem_map_of_mem hm)

theorem member?_of_mem {v : Json} (hnodup : (ms.map Prod.fst).Nodup) (h : (name, v) ∈ ms) :
    member? name (ms.map fun (n, v) => (some n, v)) = some (some v) := by
  suffices hfilter : (ms.map fun (n, v) => (some n, v)).filter (·.1 = some name)
      = [(some name, v)] by
    simp only [member?, hfilter]
  induction ms with
  | nil => cases h
  | cons m ms ih =>
    obtain ⟨hfirst, hnodup⟩ := List.nodup_cons.1 hnodup
    rcases List.mem_cons.1 h with rfl | h
    · rw [List.map_cons, List.filter_cons_of_pos (by simp), filter_of_notMem hfirst]
    · have hne : m.1 ≠ name := fun heq => hfirst (heq ▸ List.mem_map_of_mem (f := Prod.fst) h)
      rw [List.map_cons, List.filter_cons_of_neg (by simpa using hne)]
      exact ih hnodup h

/-- The fields of a record that was written, each present. -/
theorem fields?_ofMembers {names : List String} (optional : Nat) (h : ms.map Prod.fst = names)
    (hnodup : names.Nodup) :
    (ofMembers ms).fields? names optional = some (ms.map fun m => some m.2) := by
  subst h
  have hnames : (ms.map fun (n, v) => (some n, v)).all (·.1.isSome) := by
    simp
  simp only [ofMembers, fields?, if_pos hnames]
  rw [List.mapM_map]
  exact mapM_eq_some fun m hm => member?_of_mem hnodup hm

/-- The tag of a variant that was written, and the record of its other fields. -/
theorem variant?_ofMembers (t : Json) (h : name ∉ ms.map Prod.fst) :
    (ofMembers ((name, t) :: ms)).variant? name = some (t, ofMembers ms) := by
  have hrest : (ms.map fun (n, v) => (some n, v)).filter (·.1 ≠ some name)
      = ms.map fun (n, v) => (some n, v) := by
    simp only [List.filter_eq_self, List.mem_map, decide_eq_true_eq]
    rintro _ ⟨m, hm, rfl⟩ heq
    exact h (Option.some_inj.1 heq ▸ List.mem_map_of_mem hm)
  have htag : member? name (((name, t) :: ms).map fun (n, v) => (some n, v)) = some (some t) := by
    rw [List.map_cons]
    unfold member?
    rw [List.filter_cons_of_pos (by simp), filter_of_notMem h]
  simp only [ofMembers, variant?, htag]
  rw [List.map_cons, List.filter_cons_of_neg (by simp), hrest]

theorem nullable_ofOption {α : Type} {f : α → Json} {g : Json → Option α} {o : Option α}
    (h : ∀ a ∈ o, f a ≠ .null ∧ g (f a) = some a) :
    nullable g (some (ofOption f o)) = some o := by
  cases o with
  | none => rfl
  | some a =>
    obtain ⟨hnull, hread⟩ := h a rfl
    unfold nullable ofOption
    split
    · next h => cases h
    · next h => exact absurd (Option.some_inj.1 h) hnull
    · next h =>
      cases h
      rw [hread]
      rfl

end Json

end Geocast
