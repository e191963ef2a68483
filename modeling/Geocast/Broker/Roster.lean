import Geocast.Message.Payload
import Geocast.Table

/-! # The roster of clients

A broker keeps a record per connected client: its location, if known, and its subscriptions, at
most one per topic. Every subscription gets an id of its own; the numbers in the ids count the
subscriptions of all clients. -/

namespace Geocast

/-- Names one subscription of one client. -/
structure SubscriptionId where
  clientId : String
  seq : Nat
deriving DecidableEq, Repr

/-- A client's interest in the publications to a topic from within a geofence. -/
structure Subscription where
  id : SubscriptionId
  topic : Topic
  geofence : Geofence

structure ClientRecord where
  location : Option Location
  subscriptions : Table Topic Subscription

structure Roster where
  clients : Table String ClientRecord
  /-- The number of the newest subscription. -/
  lastSeq : Nat

namespace Roster

def empty : Roster := ⟨∅, 0⟩

def contains (r : Roster) (c : String) : Bool := r.clients.contains c

def size (r : Roster) : Nat := r.clients.size

def isEmpty (r : Roster) : Bool := r.clients.isEmpty

/-- Adds a client without subscriptions, unless its id is taken. -/
def add? (r : Roster) (c : String) (l : Option Location) : Option Roster :=
  if r.contains c then none else some { r with clients := r.clients.insert c ⟨l, ∅⟩ }

/-- Removes a client and returns its record. -/
def remove? (r : Roster) (c : String) : Option (ClientRecord × Roster) :=
  (r.clients.get? c).map fun record => (record, { r with clients := r.clients.erase c })

/-- Replaces the location of a connected client. -/
def relocate? (r : Roster) (c : String) (l : Option Location) : Option Roster :=
  if r.contains c then
    some { r with clients := r.clients.modify c fun record => { record with location := l } }
  else none

def location? (r : Roster) (c : String) : Option Location :=
  (r.clients.get? c).bind (·.location)

def subscription? (r : Roster) (c : String) (t : Topic) : Option Subscription :=
  (r.clients.get? c).bind (·.subscriptions.get? t)

def subscriptionCount (r : Roster) (c : String) : Nat :=
  ((r.clients.get? c).map (·.subscriptions.size)).getD 0

/-- Gives a connected client a subscription under the next id, in place of any it had on the
topic. -/
def subscribe? (r : Roster) (c : String) (t : Topic) (g : Geofence) :
    Option (Subscription × Roster) :=
  if r.contains c then
    let s : Subscription := ⟨⟨c, r.lastSeq + 1⟩, t, g⟩
    some (s, ⟨r.clients.modify c fun record =>
      { record with subscriptions := record.subscriptions.insert t s }, r.lastSeq + 1⟩)
  else none

/-- Removes the subscription of a client on a topic and returns it. -/
def unsubscribe? (r : Roster) (c : String) (t : Topic) : Option (Subscription × Roster) :=
  (r.subscription? c t).map fun s =>
    (s, { r with clients := r.clients.modify c fun record =>
      { record with subscriptions := record.subscriptions.erase t } })

/-! ## What an operation changes -/

section
variable {r r' : Roster} {c : String}

@[simp] theorem subscription?_empty (c : String) (t : Topic) : empty.subscription? c t = none := rfl

theorem add?_eq_some {l : Option Location} :
    r.add? c l = some r' ↔
      r.clients.get? c = none ∧ r' = { r with clients := r.clients.insert c ⟨l, ∅⟩ } := by
  cases h : r.clients.get? c <;> simp [add?, contains, Table.contains, h, eq_comm]

theorem add?_eq_none {l : Option Location} : r.add? c l = none ↔ (r.clients.get? c).isSome := by
  cases h : r.clients.get? c <;> simp [add?, contains, Table.contains, h]

theorem remove?_eq_some {record : ClientRecord} :
    r.remove? c = some (record, r') ↔
      r.clients.get? c = some record ∧ r' = { r with clients := r.clients.erase c } := by
  simp only [remove?, Option.map_eq_some_iff, Prod.mk.injEq, eq_comm (a := r')]
  constructor
  · rintro ⟨_, h, rfl, h'⟩
    exact ⟨h, h'⟩
  · rintro ⟨h, h'⟩
    exact ⟨_, h, rfl, h'⟩

theorem relocate?_eq_some {l : Option Location} :
    r.relocate? c l = some r' ↔ (r.clients.get? c).isSome ∧
      r' = { r with
        clients := r.clients.modify c fun record => { record with location := l } } := by
  cases h : r.clients.get? c <;> simp [relocate?, contains, Table.contains, h, eq_comm]

theorem relocate?_eq_none {l : Option Location} :
    r.relocate? c l = none ↔ r.clients.get? c = none := by
  cases h : r.clients.get? c <;> simp [relocate?, contains, Table.contains, h]

theorem subscribe?_eq_some {t : Topic} {g : Geofence} {s : Subscription} :
    r.subscribe? c t g = some (s, r') ↔ (r.clients.get? c).isSome ∧
      s = ⟨⟨c, r.lastSeq + 1⟩, t, g⟩ ∧
      r' = ⟨r.clients.modify c fun record =>
        { record with subscriptions := record.subscriptions.insert t s }, r.lastSeq + 1⟩ := by
  cases h : r.clients.get? c with
  | none => simp [subscribe?, contains, Table.contains, h]
  | some record =>
    simp only [subscribe?, contains, Table.contains, h, Option.isSome_some, if_true,
      Option.some.injEq, Prod.mk.injEq, true_and]
    constructor <;> (rintro ⟨rfl, rfl⟩; exact ⟨rfl, rfl⟩)

theorem subscribe?_eq_none {t : Topic} {g : Geofence} :
    r.subscribe? c t g = none ↔ r.clients.get? c = none := by
  cases h : r.clients.get? c <;> simp [subscribe?, contains, Table.contains, h]

theorem unsubscribe?_eq_some {t : Topic} {s : Subscription} :
    r.unsubscribe? c t = some (s, r') ↔ r.subscription? c t = some s ∧
      r' = { r with clients := r.clients.modify c fun record =>
        { record with subscriptions := record.subscriptions.erase t } } := by
  simp only [unsubscribe?, Option.map_eq_some_iff, Prod.mk.injEq, eq_comm (a := r')]
  exact ⟨fun ⟨_, h, hs, h'⟩ => ⟨hs ▸ h, h'⟩, fun ⟨h, h'⟩ => ⟨_, h, rfl, h'⟩⟩

theorem unsubscribe?_eq_none {t : Topic} :
    r.unsubscribe? c t = none ↔ r.subscription? c t = none := Option.map_eq_none_iff

/-! ### The subscriptions afterwards -/

theorem subscription?_of_add? {l : Option Location} (h : r.add? c l = some r') (c' : String)
    (t : Topic) : r'.subscription? c' t = r.subscription? c' t := by
  obtain ⟨hc, rfl⟩ := add?_eq_some.1 h
  simp only [subscription?, Table.get?_insert]
  split
  · next hcc => subst hcc; rw [hc]; rfl
  · rfl

theorem subscription?_of_remove? {record : ClientRecord} (h : r.remove? c = some (record, r'))
    (c' : String) (t : Topic) :
    r'.subscription? c' t = if c = c' then none else r.subscription? c' t := by
  obtain ⟨-, rfl⟩ := remove?_eq_some.1 h
  simp only [subscription?, Table.get?_erase]
  split <;> rfl

theorem subscription?_of_relocate? {l : Option Location} (h : r.relocate? c l = some r')
    (c' : String) (t : Topic) : r'.subscription? c' t = r.subscription? c' t := by
  obtain ⟨-, rfl⟩ := relocate?_eq_some.1 h
  simp only [subscription?, Table.get?_modify]
  split
  · next hc => subst hc; cases r.clients.get? c <;> rfl
  · rfl

theorem subscription?_of_subscribe? {t : Topic} {g : Geofence} {s : Subscription}
    (h : r.subscribe? c t g = some (s, r')) (c' : String) (t' : Topic) :
    r'.subscription? c' t' = if c = c' ∧ t = t' then some s else r.subscription? c' t' := by
  obtain ⟨hc, -, rfl⟩ := subscribe?_eq_some.1 h
  obtain ⟨record, hc⟩ := Option.isSome_iff_exists.1 hc
  simp only [subscription?, Table.get?_modify]
  by_cases hcc : c = c'
  · subst hcc
    simp [hc, Table.get?_insert]
  · simp [hcc]

theorem subscription?_of_unsubscribe? {t : Topic} {s : Subscription}
    (h : r.unsubscribe? c t = some (s, r')) (c' : String) (t' : Topic) :
    r'.subscription? c' t' = if c = c' ∧ t = t' then none else r.subscription? c' t' := by
  obtain ⟨-, rfl⟩ := unsubscribe?_eq_some.1 h
  simp only [subscription?, Table.get?_modify]
  by_cases hcc : c = c'
  · subst hcc
    cases r.clients.get? c <;> simp [Table.get?_erase]
  · simp [hcc]

end

end Roster

end Geocast
