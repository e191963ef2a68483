import Geocast.Proofs.Settings.Order

/-! # Layers of settings

What it changes to give a single setting of a group a value. `Setting.Sets` relates a tree to one in
which that was done: all other settings are those of the first tree. Laying the value over a tree
does it (`Setting.sets_overlayPath`), and what is laid over both trees later keeps it as it is,
unless it sets the group as a whole or an item of it, or something below the setting
(`Setting.Sets.overlaySource`). So a list of entries with one more for the setting gives a tree in
which just that is set (`Setting.Amends.overlaySource`). -/

namespace Geocast

namespace Setting

variable {g k : String} {x v base base' : Setting} {path : List Step}

/-! ## Names and paths -/

theorem eq_nil_of_readSteps {fuel : Nat} {cs : List Char} (h : readSteps fuel cs = some []) :
    cs = [] := by
  unfold readSteps at h
  split at h
  · rfl
  · dsimp only at h
    split at h
    · cases h
    · simp at h
  · simp [Option.bind_eq_some_iff] at h
  · cases h

/-- A path that begins with a name was written as that name after a dot. -/
theorem eq_of_readSteps {fuel : Nat} {cs : List Char} {s : String}
    (h : readSteps fuel cs = some (.name s :: path)) :
    ∃ fuel' rest, cs = '.' :: (s.toList ++ rest) ∧ readSteps fuel' rest = some path := by
  unfold readSteps at h
  split at h
  · cases h
  · next fuel cs =>
    dsimp only at h
    split at h
    · cases h
    · obtain ⟨path', hpath, hs⟩ := Option.map_eq_some_iff.1 h
      cases hs
      refine ⟨fuel, cs.dropWhile isNameChar, ?_, hpath⟩
      rw [String.toList_ofList, List.takeWhile_append_dropWhile]
  · simp [Option.bind_eq_some_iff] at h
  · cases h

/-- Only one name stands for a setting of a group. -/
theorem eq_of_pathOf {m : String} (h : pathOf m = [.name g, .name k]) : m = g ++ "." ++ k := by
  have hsteps : readSteps (m.toList.length + 1) ('.' :: m.toList) = some [.name g, .name k] := by
    unfold pathOf at h
    cases hm : readSteps (m.toList.length + 1) ('.' :: m.toList) with
    | none => simp [hm] at h
    | some steps => simpa [hm] using h
  obtain ⟨fuel, rest, hm, hrest⟩ := eq_of_readSteps hsteps
  obtain ⟨fuel', rest', rfl, hend⟩ := eq_of_readSteps hrest
  obtain rfl := eq_nil_of_readSteps hend
  rw [← String.toList_inj, String.toList_append, String.toList_append]
  simpa using hm

/-! ## One setting -/

theorem lookup_put (name name' : String) (v : Setting) (es : List (String × Setting)) :
    lookup name' (put name v es) = if name = name' then some v else lookup name' es := by
  induction es with
  | nil =>
    rw [put, lookup, List.find?_cons]
    by_cases h : name = name' <;> simp [h, lookup]
  | cons e es ih =>
    unfold lookup at ih ⊢
    by_cases he : e.1 = name
    · subst he
      rw [put, if_pos rfl]
      by_cases h : e.1 = name' <;> simp [h]
    · rw [put, if_neg he]
      by_cases h : e.1 = name'
      · subst h
        simp [Ne.symm he]
      · rw [List.find?_cons_of_neg (by simpa using h), ih,
          List.find?_cons_of_neg (by simpa using h)]

/-- A value at the end of a path changes the entry that the path goes through. -/
theorem lookup_overlayPath (name name' : String) (base v : Setting) (path : List Step) :
    lookup name' (overlayPath base v (.name name :: path)).entries =
      if name = name' then some (overlayPath ((lookup name base.entries).getD absent) v path)
      else lookup name' base.entries := by
  rw [overlayPath, entries, lookup_put]

/-- Whatever is no group replaces what was there. -/
theorem overlay_of_text? {w : String} (hx : x.text? = some w) : overlay base x = x := by
  cases x with
  | group es => cases hx
  | _ => rfl

/-- The entries of a group of a tree. -/
def members (g : String) (base : Setting) : List (String × Setting) :=
  ((lookup g base.entries).getD absent).entries

/-- What is laid over a setting of a group makes the latter a group, whether it was one before or
not. -/
theorem lookup_overlayPath_inside (g n : String) (base v : Setting) (path : List Step) :
    lookup g (overlayPath base v (.name g :: .name n :: path)).entries =
      some (group (put n (overlayPath ((lookup n (members g base)).getD absent) v path)
        (members g base))) := by
  rw [lookup_overlayPath, if_pos rfl]
  rfl

theorem members_overlayPath (g n : String) (base v : Setting) (path : List Step) :
    members g (overlayPath base v (.name g :: .name n :: path)) =
      put n (overlayPath ((lookup n (members g base)).getD absent) v path) (members g base) := by
  rw [members, lookup_overlayPath_inside]
  rfl

/-- The second tree is the first one but for a setting of a group, which has the value `x`. -/
structure Sets (g k : String) (x base base' : Setting) : Prop where
  outside : ∀ n, n ≠ g → lookup n base'.entries = lookup n base.entries
  inside : ∃ es, lookup g base'.entries = some (group es) ∧ lookup k es = some x ∧
    ∀ n, n ≠ k → lookup n es = lookup n (members g base)

theorem sets_overlayPath {w : String} (hx : x.text? = some w) :
    Sets g k x base (overlayPath base x [.name g, .name k]) where
  outside n hn := by rw [lookup_overlayPath, if_neg hn.symm]
  inside := by
    refine ⟨put k x (members g base), ?_, ?_, fun n hn => ?_⟩
    · rw [lookup_overlayPath, if_pos rfl]
      simp only [overlayPath, overlay_of_text? hx]
      rfl
    · rw [lookup_put, if_pos rfl]
    · rw [lookup_put, if_neg hn.symm]

/-- The second tree may have any value for the setting before it is set. -/
theorem Sets.overlay_self (H : Sets g k x base base') (v : Setting) :
    Sets g k x (overlayPath base v [.name g, .name k]) base' := by
  obtain ⟨es, hes, hk, hsame⟩ := H.inside
  refine ⟨fun n hn => ?_, es, hes, hk, fun n hn => ?_⟩
  · rw [lookup_overlayPath, if_neg hn.symm, H.outside n hn]
  · rw [hsame n hn, members_overlayPath, lookup_put, if_neg hn.symm]

/-! ## What is laid on later -/

theorem Sets.overlay_outside {n : String} (H : Sets g k x base base') (hn : n ≠ g) :
    Sets g k x (overlayPath base v (.name n :: path)) (overlayPath base' v (.name n :: path)) := by
  obtain ⟨es, hes, hk, hsame⟩ := H.inside
  refine ⟨fun m hm => ?_, es, ?_, hk, fun m hm => ?_⟩
  · rw [lookup_overlayPath, lookup_overlayPath, H.outside n hn, H.outside m hm]
  · rw [lookup_overlayPath, if_neg hn, hes]
  · rw [hsame m hm, members, members, lookup_overlayPath, if_neg hn]

theorem Sets.overlay_inside {n : String} (H : Sets g k x base base') (hn : n ≠ k) :
    Sets g k x (overlayPath base v (.name g :: .name n :: path))
      (overlayPath base' v (.name g :: .name n :: path)) := by
  obtain ⟨es, hes, hk, hsame⟩ := H.inside
  have hmembers : members g base' = es := by rw [members, hes]; rfl
  refine ⟨fun m hm => ?_, _, lookup_overlayPath_inside .., ?_, fun m hm => ?_⟩
  · rw [lookup_overlayPath, lookup_overlayPath, if_neg hm.symm, if_neg hm.symm, H.outside m hm]
  · rw [lookup_put, if_neg hn, hmembers, hk]
  · rw [members_overlayPath, lookup_put, lookup_put, hmembers, hsame n hn, hsame m hm]

/-- Whether a path leads to a group as a whole or to an item of it. -/
def unsettles (g : String) : List Step → Bool
  | [.name n] => n = g
  | .name n :: .item _ :: _ => n = g
  | .name _ :: .name _ :: _ => false
  | _ => true

/-- What has parts and no text of its own. -/
def isBranch : Setting → Bool
  | list _ | group _ => true
  | _ => false

theorem isBranch_overlayPath (base v : Setting) (s : Step) (path : List Step) :
    (overlayPath base v (s :: path)).isBranch := by
  cases s <;> rfl

/-- In the place of a setting of a group stands a value that has parts. -/
def Buried (g k : String) (base : Setting) : Prop :=
  ∃ es v, lookup g base.entries = some (group es) ∧ lookup k es = some v ∧ v.isBranch

/-- How a path goes on that neither unsettles a group nor leads to a certain setting of it. -/
theorem cases_of_settled (h : unsettles g path = false) (hk : path ≠ [.name g, .name k]) :
    (∃ n rest, n ≠ g ∧ path = .name n :: rest) ∨
    (∃ n rest, n ≠ k ∧ path = .name g :: .name n :: rest) ∨
    ∃ s rest, path = .name g :: .name k :: s :: rest := by
  rcases path with _ | ⟨n | _, path⟩
  · cases h
  · by_cases hn : n = g
    · subst hn
      rcases path with _ | ⟨n' | _, path⟩
      · simp [unsettles] at h
      · by_cases hn' : n' = k
        · subst hn'
          cases path with
          | nil => exact absurd rfl hk
          | cons s rest => exact .inr (.inr ⟨s, rest, rfl⟩)
        · exact .inr (.inl ⟨n', path, hn', rfl⟩)
      · simp [unsettles] at h
    · exact .inl ⟨n, path, hn, rfl⟩
  · cases h

theorem buried_overlayPath (g k : String) (base v : Setting) (s : Step) (path : List Step) :
    Buried g k (overlayPath base v (.name g :: .name k :: s :: path)) :=
  ⟨_, _, lookup_overlayPath_inside .., (lookup_put ..).trans (if_pos rfl), isBranch_overlayPath ..⟩

theorem Sets.overlayPath (H : Sets g k x base base') (h : unsettles g path = false)
    (hk : path ≠ [.name g, .name k]) :
    Sets g k x (overlayPath base v path) (overlayPath base' v path) ∨
      Buried g k (overlayPath base v path) := by
  rcases cases_of_settled h hk with ⟨n, rest, hn, rfl⟩ | ⟨n, rest, hn, rfl⟩ | ⟨s, rest, rfl⟩
  · exact .inl (H.overlay_outside hn)
  · exact .inl (H.overlay_inside hn)
  · exact .inr (buried_overlayPath ..)

theorem Buried.overlayPath (H : Buried g k base) (h : unsettles g path = false)
    (hk : path ≠ [.name g, .name k]) : Buried g k (overlayPath base v path) := by
  obtain ⟨es, w, hes, hw, hbranch⟩ := H
  rcases cases_of_settled h hk with ⟨n, rest, hn, rfl⟩ | ⟨n, rest, hn, rfl⟩ | ⟨s, rest, rfl⟩
  · exact ⟨es, w, by rw [lookup_overlayPath, if_neg hn, hes], hw, hbranch⟩
  · refine ⟨_, w, lookup_overlayPath_inside .., ?_, hbranch⟩
    rw [lookup_put, if_neg hn, members, hes]
    exact hw
  · exact buried_overlayPath ..

/-! ## Layers of entries -/

/-- The entries neither unsettle a group nor set a certain setting of it. -/
def Settled (g k : String) (source : List (String × Setting)) : Prop :=
  ∀ e ∈ source, unsettles g (pathOf e.1) = false ∧ pathOf e.1 ≠ [.name g, .name k]

variable {source : List (String × Setting)}

theorem Buried.overlaySource (H : Buried g k base) (h : Settled g k source) :
    Buried g k (overlaySource base source) := by
  induction source generalizing base with
  | nil => exact H
  | cons e source ih =>
    obtain ⟨he, hrest⟩ := List.forall_mem_cons.1 h
    exact ih (H.overlayPath he.1 he.2) hrest

theorem Sets.overlaySource (H : Sets g k x base base') (h : Settled g k source) :
    Sets g k x (overlaySource base source) (overlaySource base' source) ∨
      Buried g k (overlaySource base source) := by
  induction source generalizing base base' with
  | nil => exact .inl H
  | cons e source ih =>
    obtain ⟨he, hrest⟩ := List.forall_mem_cons.1 h
    rcases H.overlayPath he.1 he.2 with H | H
    · exact ih H hrest
    · exact .inr (H.overlaySource hrest)

theorem Sets.overlay_old (H : Sets g k x base base')
    (h : ∀ e ∈ source, pathOf e.1 = [.name g, .name k]) :
    Sets g k x (Setting.overlaySource base source) base' := by
  induction source generalizing base with
  | nil => exact H
  | cons e source ih =>
    obtain ⟨he, hrest⟩ := List.forall_mem_cons.1 h
    refine ih ?_ hrest
    show Sets g k x (Setting.overlayPath base e.2 (pathOf e.1)) base'
    rw [he]
    exact H.overlay_self e.2

theorem overlaySource_append (base : Setting) (source source' : List (String × Setting)) :
    overlaySource base (source ++ source') = overlaySource (overlaySource base source) source' :=
  List.foldl_append ..

/-- Entries with one more for a setting give a tree in which that is set, unless something below it
was set. What stands in front of the entry in the order of the ranks may be anything. -/
theorem Amends.overlaySource {rank : String → Nat} {n w : String} {es es' : List (String × Setting)}
    (H : Amends n x es es') (hnodup : (es'.map Prod.fst).Nodup)
    (horder : es'.Pairwise fun e f => rank e.1 ≤ rank f.1) (hn : pathOf n = [.name g, .name k])
    (hx : x.text? = some w)
    (hes : ∀ e ∈ es, rank n ≤ rank e.1 → unsettles g (pathOf e.1) = false) (base : Setting) :
    Sets g k x (overlaySource base es) (overlaySource base es') ∨
      Buried g k (overlaySource base es) := by
  obtain ⟨front, old, back, hold, rfl, rfl⟩ := H
  have hback : Settled g k back := fun e he => by
    have hlater : rank n ≤ rank e.1 :=
      (List.pairwise_cons.1 (List.pairwise_append.1 horder).2.1).1 e he
    refine ⟨hes e (by simp [he]) hlater, fun hpath => ?_⟩
    have hname : e.1 = n := (eq_of_pathOf hpath).trans (eq_of_pathOf hn).symm
    have hmem : e.1 ∈ back.map Prod.fst := List.mem_map_of_mem he
    rw [List.map_append, List.map_cons] at hnodup
    rw [hname] at hmem
    exact (List.nodup_cons.1 (List.nodup_append.1 hnodup).2.1).1 hmem
  have hset : Sets g k x (Setting.overlaySource (Setting.overlaySource base front) old)
      (overlayPath (Setting.overlaySource base front) x [.name g, .name k]) :=
    (sets_overlayPath hx).overlay_old fun e he => (congrArg pathOf (hold e he)).trans hn
  rw [overlaySource_append, overlaySource_append, overlaySource_append]
  show Sets g k x _ (Setting.overlaySource (overlayPath _ x (pathOf n)) back) ∨ _
  rw [hn]
  exact hset.overlaySource hback

end Setting

end Geocast
