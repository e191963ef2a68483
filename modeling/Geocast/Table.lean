/-! # Tables

A table holds at most one value per key. Its entries keep the order in which they were inserted
last, but what a table means is given by `Table.get?` alone, and the lemmas here say what each
operation does to it. -/

namespace Geocast

/-- Values by key. -/
structure Table (κ α : Type) where
  entries : List (κ × α)
  distinct : (entries.map Prod.fst).Nodup

namespace Table

variable {κ α : Type}

def empty : Table κ α := ⟨[], List.nodup_nil⟩

instance : EmptyCollection (Table κ α) := ⟨empty⟩

def size (t : Table κ α) : Nat := t.entries.length

@[simp] theorem size_empty : (∅ : Table κ α).size = 0 := rfl

def isEmpty (t : Table κ α) : Bool := t.entries.isEmpty

/-- The keys in the order of their entries. -/
def keys (t : Table κ α) : List κ := t.entries.map Prod.fst

theorem nodup_filter {l : List (κ × α)} (h : (l.map Prod.fst).Nodup) (p : κ × α → Bool) :
    ((l.filter p).map Prod.fst).Nodup :=
  h.sublist (List.filter_sublist.map Prod.fst)

variable [DecidableEq κ]

def get? (t : Table κ α) (k : κ) : Option α :=
  (t.entries.find? fun e => e.1 = k).map Prod.snd

def contains (t : Table κ α) (k : κ) : Bool := (t.get? k).isSome

def erase (t : Table κ α) (k : κ) : Table κ α :=
  ⟨t.entries.filter fun e => e.1 ≠ k, nodup_filter t.distinct _⟩

theorem nodup_snoc {l : List (κ × α)} (h : (l.map Prod.fst).Nodup) (k : κ) (v : α) :
    (((l.filter fun e => e.1 ≠ k) ++ [(k, v)]).map Prod.fst).Nodup := by
  rw [List.map_append, List.nodup_append]
  refine ⟨nodup_filter h _, by simp, ?_⟩
  intro a ha b hb
  simp only [List.mem_map, List.mem_filter, decide_eq_true_eq] at ha
  obtain ⟨e, ⟨_, hne⟩, rfl⟩ := ha
  simp only [List.map_cons, List.map_nil, List.mem_singleton] at hb
  exact hb ▸ hne

/-- Gives a key a value in place of any it had. -/
def insert (t : Table κ α) (k : κ) (v : α) : Table κ α :=
  ⟨(t.entries.filter fun e => e.1 ≠ k) ++ [(k, v)], nodup_snoc t.distinct k v⟩

/-- Changes the value of a key, if it has one. -/
def modify (t : Table κ α) (k : κ) (f : α → α) : Table κ α :=
  ⟨t.entries.map fun e => if e.1 = k then (e.1, f e.2) else e, by
    have h : (t.entries.map fun e => if e.1 = k then (e.1, f e.2) else e).map Prod.fst
        = t.entries.map Prod.fst := by
      rw [List.map_map]
      apply List.map_congr_left
      intro e _
      simp only [Function.comp]
      split <;> rfl
    rw [h]
    exact t.distinct⟩

/-! ## Size after an operation -/

theorem size_erase_le (t : Table κ α) (k : κ) : (t.erase k).size ≤ t.size :=
  List.length_filter_le ..

theorem size_insert_le (t : Table κ α) (k : κ) (v : α) : (t.insert k v).size ≤ t.size + 1 := by
  simp only [size, insert, List.length_append, List.length_singleton]
  exact Nat.succ_le_succ (List.length_filter_le ..)

/-! ## Lookup after an operation -/

@[simp] theorem get?_empty (k : κ) : (∅ : Table κ α).get? k = none := rfl

theorem get?_erase (t : Table κ α) (k k' : κ) :
    (t.erase k).get? k' = if k = k' then none else t.get? k' := by
  simp only [get?, erase, List.find?_filter]
  split
  · next h =>
    subst h
    rw [List.find?_eq_none.2 (by simp)]
    rfl
  · next h =>
    congr 2
    funext e
    by_cases he : e.1 = k'
    · subst he; simp [Ne.symm h]
    · simp [he]

theorem get?_insert (t : Table κ α) (k k' : κ) (v : α) :
    (t.insert k v).get? k' = if k = k' then some v else t.get? k' := by
  have h := get?_erase t k k'
  simp only [get?, erase] at h
  simp only [get?, insert, List.find?_append]
  rw [Option.map_or, h]
  split
  · next hk => simp [hk]
  · next hk => simp [hk]

theorem get?_modify (t : Table κ α) (k k' : κ) (f : α → α) :
    (t.modify k f).get? k' = if k = k' then (t.get? k').map f else t.get? k' := by
  simp only [get?, modify]
  induction t.entries with
  | nil => simp
  | cons e l ih =>
    by_cases hk : e.1 = k <;> by_cases hk' : e.1 = k'
    · subst hk; subst hk'; simp
    · simp only [List.map_cons, hk, if_true]
      rw [List.find?_cons_of_neg (by simpa [hk] using hk'),
        List.find?_cons_of_neg (by simpa using hk')]
      exact ih
    · simp only [List.map_cons, hk, if_false]
      rw [List.find?_cons_of_pos (by simpa using hk'),
        List.find?_cons_of_pos (by simpa using hk')]
      have : k ≠ k' := fun h => hk (hk'.trans h.symm)
      simp [this]
    · simp only [List.map_cons, hk, if_false]
      rw [List.find?_cons_of_neg (by simpa using hk'),
        List.find?_cons_of_neg (by simpa using hk')]
      exact ih

/-! ## Entries -/

theorem mem_entries_iff {t : Table κ α} {k : κ} {v : α} :
    (k, v) ∈ t.entries ↔ t.get? k = some v := by
  obtain ⟨l, hl⟩ := t
  simp only [get?]
  induction l with
  | nil => simp
  | cons e l ih =>
    obtain ⟨k', v'⟩ := e
    simp only [List.map_cons, List.nodup_cons] at hl
    by_cases hk : k' = k
    · subst hk
      have hnot : (k', v) ∉ l := fun h => hl.1 (List.mem_map_of_mem h)
      simp [hnot, eq_comm]
    · rw [List.find?_cons_of_neg (by simpa using hk), ← ih hl.2]
      simp [Ne.symm hk]

/-- The values of a table are those that some key has. -/
theorem mem_values_iff {t : Table κ α} {v : α} :
    v ∈ t.entries.map Prod.snd ↔ ∃ k, t.get? k = some v := by
  simp only [List.mem_map, Prod.exists, exists_eq_right, mem_entries_iff]

theorem isEmpty_iff {t : Table κ α} : t.isEmpty ↔ ∀ k, t.get? k = none := by
  rw [isEmpty, List.isEmpty_iff]
  refine ⟨fun h k => by simp [get?, h], fun h => List.eq_nil_iff_forall_not_mem.2 fun e he => ?_⟩
  exact Option.some_ne_none _ ((mem_entries_iff.1 he).symm.trans (h e.1))

theorem isEmpty_insert (t : Table κ α) (k : κ) (v : α) : (t.insert k v).isEmpty = false := by
  simp [isEmpty, insert]

/-- A change that leaves the value of its key as it is changes nothing. -/
theorem modify_eq_self {t : Table κ α} {k : κ} {f : α → α} (h : ∀ v, t.get? k = some v → f v = v) :
    t.modify k f = t := by
  have hentries : (t.modify k f).entries = t.entries := by
    refine (List.map_congr_left fun e he => ?_).trans (List.map_id t.entries)
    split
    · next hk => rw [h e.2 (mem_entries_iff.1 (hk ▸ he)), id]
    · rfl
  cases hm : t.modify k f
  cases t
  simp_all

end Table

end Geocast
