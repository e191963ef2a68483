import Geocast.Proofs.Broker.Matching
import Mathlib.Data.Set.Card

/-! # The index as a flat map

The index keeps a table of subscriptions for each topic, and makes and drops these tables as needed.
It stands for a flat map from a subscription and a topic to a geofence
(`TopicIndex.Represents`): inserting and removing change the map at one place
(`TopicIndex.Represents.act`), and what can be asked of the index is asked of the map. After any
run of acts the map holds what the last act on each place left there
(`TopicIndex.represents_after`). -/

namespace Geocast

/-- What is done with the index. -/
inductive IndexAct
  | insert (id : SubscriptionId) (t : Topic) (g : Geofence)
  | remove (id : SubscriptionId) (t : Topic)

namespace IndexAct

/-- The place that an act is about. -/
def place : IndexAct → SubscriptionId × Topic
  | insert id t _ => (id, t)
  | remove id t => (id, t)

/-- The geofence that an act leaves at its place. -/
def filed? : IndexAct → Option Geofence
  | insert _ _ g => some g
  | remove .. => none

end IndexAct

/-- The geofence that was inserted last at a place and was not removed. -/
def lastFiled (acts : List IndexAct) (k : SubscriptionId × Topic) : Option Geofence :=
  (acts.reverse.find? fun a => a.place = k).bind IndexAct.filed?

theorem lastFiled_concat (acts : List IndexAct) (a : IndexAct) :
    lastFiled (acts ++ [a]) = Function.update (lastFiled acts) a.place a.filed? := by
  funext k
  rw [lastFiled, List.reverse_concat]
  by_cases h : k = a.place
  · subst h
    rw [List.find?_cons_of_pos (by simp), Function.update_self]
    rfl
  · rw [List.find?_cons_of_neg (by simpa using Ne.symm h), Function.update_of_ne h]
    rfl

namespace TopicIndex

/-- An act on the index, with the answer to a removal. -/
def act (x : TopicIndex) : IndexAct → Option Bool × TopicIndex
  | .insert id t g => (none, x.insert id t g)
  | .remove id t => (some (x.remove id t).1, (x.remove id t).2)

/-- The index after a run of acts from the start. -/
def after (acts : List IndexAct) : TopicIndex := acts.foldl (fun x a => (x.act a).2) empty

theorem after_concat (acts : List IndexAct) (a : IndexAct) :
    after (acts ++ [a]) = ((after acts).act a).2 :=
  List.foldl_concat ..

/-- The index stands for a flat map. -/
structure Represents (x : TopicIndex) (m : SubscriptionId × Topic → Option Geofence) : Prop where
  get? : ∀ id t, x.get? id t = m (id, t)
  pruned : x.Pruned

theorem represents_empty : empty.Represents fun _ => none where
  get? _ _ := rfl
  pruned := .empty

theorem mem_keys_onTopic {x : TopicIndex} {id : SubscriptionId} {t : Topic} :
    id ∈ (x.onTopic t).keys ↔ ∃ g, x.get? id t = some g := by
  simp only [Table.keys, List.mem_map, Prod.exists, exists_and_right, exists_eq_right,
    Table.mem_entries_iff, TopicIndex.get?]

theorem isEmpty_iff {x : TopicIndex} (H : x.Pruned) :
    x.isEmpty ↔ ∀ id t, x.get? id t = none := by
  rw [isEmpty, Table.isEmpty_iff]
  constructor
  · intro h id t
    rw [get?, onTopic, h t]
    rfl
  · intro h t
    cases hrest : x.topics.get? t with
    | none => rfl
    | some rest =>
      -- a topic with an entry has a subscription, and that is filed nowhere
      have hempty : rest.isEmpty := Table.isEmpty_iff.2 fun id => by
        simpa [get?, onTopic, hrest] using h id t
      exact absurd hempty (by simp [H t rest hrest])

namespace Represents

variable {x : TopicIndex} {m : SubscriptionId × Topic → Option Geofence} (H : x.Represents m)
include H

/-- An act changes the map at its place only. A removal tells whether something was there. -/
theorem act (a : IndexAct) :
    (x.act a).2.Represents (Function.update m a.place a.filed?) ∧
      ∀ answer, (x.act a).1 = some answer → (answer = true ↔ ∃ g, m a.place = some g) := by
  cases a with
  | insert id t g =>
    refine ⟨⟨fun id' t' => ?_, H.pruned.insert id t g⟩, fun answer h => by cases h⟩
    show (x.insert id t g).get? id' t' = _
    rw [get?_insert, H.get?, Function.update_apply]
    simp only [IndexAct.place, IndexAct.filed?, Prod.mk.injEq, eq_comm]
  | remove id t =>
    have herase : (x.act (.remove id t)).2 = x.erase id t := by rw [TopicIndex.act, remove_eq]
    refine ⟨⟨fun id' t' => ?_, herase ▸ H.pruned.erase id t⟩, fun answer h => ?_⟩
    · rw [herase, get?_erase, H.get?, Function.update_apply]
      simp only [IndexAct.place, IndexAct.filed?, Prod.mk.injEq, eq_comm]
    · rw [TopicIndex.act, remove_eq] at h
      cases h
      rw [contains, H.get?, Option.isSome_iff_exists]
      rfl

theorem mem_matching {id : SubscriptionId} {t : Topic} {p : Location} :
    id ∈ x.matching t p ↔ ∃ g, m (id, t) = some g ∧ g.contains p := by
  rw [TopicIndex.mem_matching]
  simp only [H.get?]

/-- The subscriptions on a topic are counted by those that the map has a geofence for. -/
theorem count_eq (t : Topic) :
    {id | ∃ g, m (id, t) = some g}.Finite ∧ x.count t = {id | ∃ g, m (id, t) = some g}.ncard := by
  have hkeys : {id | ∃ g, m (id, t) = some g} = ↑(x.onTopic t).keys.toFinset := by
    ext id
    rw [Finset.mem_coe, List.mem_toFinset, mem_keys_onTopic, H.get?]
    rfl
  have hnodup : (x.onTopic t).keys.Nodup := (x.onTopic t).distinct
  rw [hkeys]
  refine ⟨Finset.finite_toSet _, ?_⟩
  calc x.count t = (x.onTopic t).keys.length := (List.length_map _).symm
    _ = (x.onTopic t).keys.toFinset.card := (List.toFinset_card_of_nodup hnodup).symm
    _ = _ := (Set.ncard_coe_finset _).symm

theorem isEmpty_iff : x.isEmpty ↔ ∀ k, m k = none := by
  rw [TopicIndex.isEmpty_iff H.pruned, Prod.forall]
  simp only [H.get?]

end Represents

theorem nodup_matching (x : TopicIndex) (t : Topic) (p : Location) : (x.matching t p).Nodup :=
  Table.nodup_filter (x.onTopic t).distinct _

theorem represents_after (acts : List IndexAct) : (after acts).Represents (lastFiled acts) := by
  induction acts using List.reverseRecOn with
  | nil => exact represents_empty
  | append_singleton acts a ih =>
    rw [after_concat, lastFiled_concat]
    exact (ih.act a).1

/-- After any acts the index is the flat map of what was inserted last and not removed: a removal
tells whether there was something to remove, matching finds the subscriptions with a geofence around
a location, each once, and counting and emptiness are those of the map. -/
theorem flat_map_after (acts : List IndexAct) :
    (∀ id t, (after acts).get? id t = lastFiled acts (id, t)) ∧
    (∀ id t, ((after acts).remove id t).1 = true ↔ ∃ g, lastFiled acts (id, t) = some g) ∧
    (∀ t p, ((after acts).matching t p).Nodup ∧ ∀ id, id ∈ (after acts).matching t p ↔
      ∃ g, lastFiled acts (id, t) = some g ∧ g.contains p) ∧
    (∀ t, {id | ∃ g, lastFiled acts (id, t) = some g}.Finite ∧
      (after acts).count t = {id | ∃ g, lastFiled acts (id, t) = some g}.ncard) ∧
    ((after acts).isEmpty ↔ ∀ k, lastFiled acts k = none) := by
  have H := represents_after acts
  refine ⟨H.get?, fun id t => ?_, fun t p => ⟨nodup_matching _ t p, fun id => H.mem_matching⟩,
    H.count_eq, H.isEmpty_iff⟩
  exact (H.act (.remove id t)).2 _ rfl

end TopicIndex

end Geocast
