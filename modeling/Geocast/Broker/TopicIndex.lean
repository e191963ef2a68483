import Geocast.Broker.Roster

/-! # The index of subscriptions

The index files the geofence of every subscription under its topic, so that a publication is
compared with the subscriptions on its own topic only. A topic without subscriptions has no
entry. -/

namespace Geocast

/-- The geofences of subscriptions by topic and id. -/
structure TopicIndex where
  topics : Table Topic (Table SubscriptionId Geofence)

namespace TopicIndex

def empty : TopicIndex := ⟨∅⟩

def onTopic (x : TopicIndex) (t : Topic) : Table SubscriptionId Geofence :=
  (x.topics.get? t).getD ∅

/-- The geofence filed for a subscription under a topic. -/
def get? (x : TopicIndex) (id : SubscriptionId) (t : Topic) : Option Geofence :=
  (x.onTopic t).get? id

/-- Files a subscription under a topic, in place of any geofence it had there. -/
def insert (x : TopicIndex) (id : SubscriptionId) (t : Topic) (g : Geofence) : TopicIndex :=
  ⟨x.topics.insert t ((x.onTopic t).insert id g)⟩

/-- Removes a subscription from a topic, and the topic with its last one. -/
def erase (x : TopicIndex) (id : SubscriptionId) (t : Topic) : TopicIndex :=
  match x.topics.get? t with
  | none => x
  | some subscriptions =>
    let rest := subscriptions.erase id
    if rest.isEmpty then ⟨x.topics.erase t⟩ else ⟨x.topics.insert t rest⟩

def contains (x : TopicIndex) (id : SubscriptionId) (t : Topic) : Bool := (x.get? id t).isSome

/-- Removes a subscription from a topic like `erase`, and tells whether it was there. -/
def remove (x : TopicIndex) (id : SubscriptionId) (t : Topic) : Bool × TopicIndex :=
  match x.topics.get? t with
  | none => (false, x)
  | some subscriptions =>
    let rest := subscriptions.erase id
    (subscriptions.contains id,
      if rest.isEmpty then ⟨x.topics.erase t⟩ else ⟨x.topics.insert t rest⟩)

/-- The subscriptions on a topic whose geofence contains a location. -/
def matching (x : TopicIndex) (t : Topic) (p : Location) : List SubscriptionId :=
  ((x.onTopic t).entries.filter fun e => e.2.contains p).map Prod.fst

def count (x : TopicIndex) (t : Topic) : Nat := (x.onTopic t).size

def isEmpty (x : TopicIndex) : Bool := x.topics.isEmpty

/-! ## Lookup after an operation -/

@[simp] theorem get?_empty (id : SubscriptionId) (t : Topic) : empty.get? id t = none := rfl

theorem onTopic_insert (x : TopicIndex) (id : SubscriptionId) (t t' : Topic) (g : Geofence) :
    (x.insert id t g).onTopic t' = if t = t' then (x.onTopic t).insert id g else x.onTopic t' := by
  simp only [onTopic, insert, Table.get?_insert]
  split <;> rfl

theorem get?_insert (x : TopicIndex) (id id' : SubscriptionId) (t t' : Topic) (g : Geofence) :
    (x.insert id t g).get? id' t' = if id = id' ∧ t = t' then some g else x.get? id' t' := by
  rw [get?, onTopic_insert]
  by_cases ht : t = t'
  · subst ht
    simp [Table.get?_insert, get?]
  · simp [ht, get?]

theorem get?_erase (x : TopicIndex) (id id' : SubscriptionId) (t t' : Topic) :
    (x.erase id t).get? id' t' = if id = id' ∧ t = t' then none else x.get? id' t' := by
  unfold erase
  split
  · next h =>
    split
    · next he => rw [get?, onTopic, ← he.2, h]; rfl
    · rfl
  · next rest h =>
    dsimp only
    split
    · next hempty =>
      by_cases ht : t = t'
      · subst ht
        have := Table.isEmpty_iff.1 hempty id'
        simp only [get?, onTopic, Table.get?_erase, if_true, Option.getD_none] at this ⊢
        rw [h]
        by_cases hid : id = id'
        · simp [hid]
        · simpa [hid] using this.symm
      · simp [get?, onTopic, Table.get?_erase, ht]
    · by_cases ht : t = t'
      · subst ht
        simp [get?, onTopic, Table.get?_insert, Table.get?_erase, h]
      · simp [get?, onTopic, Table.get?_insert, ht]

theorem remove_eq (x : TopicIndex) (id : SubscriptionId) (t : Topic) :
    x.remove id t = (x.contains id t, x.erase id t) := by
  unfold remove contains erase get? onTopic
  cases x.topics.get? t <;> rfl

/-! ## Topics without subscriptions -/

/-- No topic has an entry without subscriptions. -/
def Pruned (x : TopicIndex) : Prop := ∀ t rest, x.topics.get? t = some rest → rest.isEmpty = false

theorem Pruned.empty : Pruned .empty := fun _ _ h => nomatch h

theorem Pruned.insert {x : TopicIndex} (H : x.Pruned) (id : SubscriptionId) (t : Topic)
    (g : Geofence) : (x.insert id t g).Pruned := by
  intro t' rest h
  simp only [TopicIndex.insert, Table.get?_insert] at h
  split at h
  · cases h; exact Table.isEmpty_insert ..
  · exact H t' rest h

theorem Pruned.erase {x : TopicIndex} (H : x.Pruned) (id : SubscriptionId) (t : Topic) :
    (x.erase id t).Pruned := by
  intro t' rest' h
  unfold TopicIndex.erase at h
  split at h
  · exact H t' rest' h
  · dsimp only at h
    split at h
    · rw [Table.get?_erase] at h
      split at h
      · cases h
      · exact H t' rest' h
    · next hne =>
      rw [Table.get?_insert] at h
      split at h
      · cases h; simpa using hne
      · exact H t' rest' h

end TopicIndex

end Geocast
