import Geocast.Broker.Handle

/-! # Runs of a broker

`Change` lists what one payload can do to the state of a broker, and `handle_change` says that
processing a payload does nothing else. `Broker.after` is the state that a sequence of payloads
leads to; what every change keeps, every run keeps (`after_keeps`). -/

namespace Geocast

namespace Broker

/-! ## Forgetting a client -/

theorem get?_unindex {l : List Subscription} {x : TopicIndex} {i : SubscriptionId} {t : Topic}
    {g : Geofence} : (unindex x l).get? i t = some g ↔
      x.get? i t = some g ∧ ∀ s ∈ l, ¬ (s.id = i ∧ s.topic = t) := by
  induction l generalizing x with
  | nil => simp [unindex]
  | cons s l ih =>
    rw [show unindex x (s :: l) = unindex (x.erase s.id s.topic) l from rfl, ih,
      TopicIndex.get?_erase]
    by_cases h : s.id = i ∧ s.topic = t
    · simp [h]
    · rw [if_neg h, List.forall_mem_cons]
      simp only [h, not_false_eq_true, true_and]

theorem pruned_unindex {l : List Subscription} {x : TopicIndex} (H : x.Pruned) :
    (unindex x l).Pruned := by
  induction l generalizing x with
  | nil => exact H
  | cons s l ih => exact ih (H.erase s.id s.topic)

section
variable (b : Broker) (c : String)

theorem evict_eq : (b.roster.remove? c = none ∧ b.evict c = b) ∨
    ∃ record roster, b.roster.remove? c = some (record, roster) ∧ b.evict c = { b with
      roster := roster
      index := unindex b.index (record.subscriptions.entries.map Prod.snd) } := by
  unfold evict
  cases h : b.roster.remove? c with
  | none => exact .inl ⟨rfl, rfl⟩
  | some e => exact .inr ⟨e.1, e.2, rfl, rfl⟩

@[simp] theorem evict_atlas : (b.evict c).atlas = b.atlas := by
  rcases b.evict_eq c with ⟨-, h⟩ | ⟨_, _, -, h⟩ <;> rw [h]

theorem evict_lastSeq : (b.evict c).roster.lastSeq = b.roster.lastSeq := by
  rcases b.evict_eq c with ⟨-, h⟩ | ⟨_, _, hr, h⟩ <;> rw [h]
  rw [(Roster.remove?_eq_some.1 hr).2]

theorem evict_subscription? (c' : String) (t : Topic) : (b.evict c).roster.subscription? c' t =
    if c = c' then none else b.roster.subscription? c' t := by
  rcases b.evict_eq c with ⟨hr, h⟩ | ⟨_, _, hr, h⟩ <;> rw [h]
  · simp only [Roster.remove?, Option.map_eq_none_iff] at hr
    split
    · next hc => subst hc; rw [Roster.subscription?, hr]; rfl
    · rfl
  · exact Roster.subscription?_of_remove? hr c' t

/-- Evicting a client removes its subscriptions from the index, and only these. -/
theorem evict_get? {i : SubscriptionId} {t : Topic} {g : Geofence} :
    (b.evict c).index.get? i t = some g ↔ b.index.get? i t = some g ∧
      ∀ k s, b.roster.subscription? c k = some s → ¬ (s.id = i ∧ s.topic = t) := by
  rcases b.evict_eq c with ⟨hr, h⟩ | ⟨record, _, hr, h⟩ <;> rw [h]
  · simp only [Roster.remove?, Option.map_eq_none_iff] at hr
    simp [Roster.subscription?, hr]
  · simp only [get?_unindex, Roster.subscription?, (Roster.remove?_eq_some.1 hr).1,
      Table.mem_values_iff, Option.bind_some]
    refine and_congr_right fun _ => ⟨fun H k s hs => H s ⟨k, hs⟩, ?_⟩
    rintro H s ⟨k, hs⟩
    exact H k s hs

theorem evict_pruned (H : b.index.Pruned) : (b.evict c).index.Pruned := by
  rcases b.evict_eq c with ⟨-, h⟩ | ⟨_, _, -, h⟩ <;> rw [h]
  · exact H
  · exact pruned_unindex H

end

/-! ## One payload -/

/-- What a payload from the client `c` does to a broker. -/
inductive Change (b : Broker) (c : String) : Payload → Broker → Prop
  | idle (p : Payload) : Change b c p b
  | evicted (p : Payload) : Change b c p (b.evict c)
  | added {l : Option Location} {r : Roster} : b.atlas.isResponsibleFor l →
    b.roster.add? c l = some r → Change b c (.connect l) { b with roster := r }
  | relocated {l : Option Location} {r : Roster} : b.atlas.isResponsibleFor l →
    b.roster.relocate? c l = some r → Change b c (.pingReq l) { b with roster := r }
  | subscribed {t : Topic} {g : Geofence} {s : Subscription} {r : Roster} :
    b.roster.subscribe? c t g = some (s, r) → Change b c (.subscribe t g) (b.subscribe c t g).1
  | unsubscribed {t : Topic} {s : Subscription} {r : Roster} :
    b.roster.unsubscribe? c t = some (s, r) →
    Change b c (.unsubscribe t) { b with roster := r, index := b.index.erase s.id t }

theorem publish_change (b : Broker) (c : String) (p : Publication) :
    Change b c (.publish p) (b.publish c p).1 := by
  unfold publish
  split
  · exact .idle _
  · unfold publishUnlocated
    dsimp only
    split
    · exact .idle _
    · split <;> exact .evicted _

/-- Processing a payload changes nothing but what `Change` lists. -/
theorem handle_change (b : Broker) (c : String) (p : Payload) : Change b c p (b.handle c p).1 := by
  cases p with
  | connect l =>
    simp only [handle, connect]
    split
    · next hl =>
      split
      · next h => exact .added hl h
      · exact .evicted _
    · exact .evicted _
  | disconnect => exact .evicted _
  | pingReq l =>
    simp only [handle, ping]
    split
    · next hl =>
      split
      · next h => exact .relocated hl h
      · exact .idle _
    · exact .evicted _
  | subscribe t g =>
    cases h : b.roster.subscribe? c t g with
    | none => simp only [handle, subscribe, h]; exact .idle _
    | some e => exact .subscribed h
  | unsubscribe t =>
    simp only [handle, unsubscribe]
    split
    · next h => exact .unsubscribed h
    · exact .idle _
  | publish p => exact b.publish_change c p
  | _ => exact .idle _

theorem Change.atlas {b b' : Broker} {c : String} {p : Payload} (H : Change b c p b') :
    b'.atlas = b.atlas := by
  cases H with
  | evicted => exact b.evict_atlas c
  | subscribed h => simp only [subscribe, h]
  | _ => rfl

/-! ## Sequences of payloads -/

/-- The broker after it processed payloads one after another. -/
def after (b : Broker) (frames : List Frame) : Broker :=
  frames.foldl (fun b f => (b.handle f.sender f.payload).1) b

theorem after_cons (b : Broker) (f : Frame) (fs : List Frame) :
    b.after (f :: fs) = (b.handle f.sender f.payload).1.after fs := rfl

/-- What every change by a payload of some sort keeps, a run of such payloads keeps. -/
theorem after_keeps_of {P : Broker → Prop} {Q : Payload → Prop}
    (hstep : ∀ {b b' : Broker} {c : String} {p : Payload}, Change b c p b' → Q p → P b → P b')
    {frames : List Frame} (hQ : ∀ f ∈ frames, Q f.payload) {b : Broker} (h : P b) :
    P (b.after frames) := by
  induction frames generalizing b with
  | nil => exact h
  | cons f fs ih =>
    obtain ⟨hf, hfs⟩ := List.forall_mem_cons.1 hQ
    exact ih hfs (hstep (b.handle_change ..) hf h)

theorem after_keeps {P : Broker → Prop}
    (hstep : ∀ {b b' : Broker} {c : String} {p : Payload}, Change b c p b' → P b → P b')
    (frames : List Frame) {b : Broker} (h : P b) : P (b.after frames) :=
  after_keeps_of (Q := fun _ => True) (fun h _ => hstep h) (fun _ _ => trivial) h

/-- The states that a broker which began without clients can get into. -/
def Reachable (b : Broker) : Prop := ∃ atlas policy frames, b = (start atlas policy).after frames

theorem atlas_after (b : Broker) (frames : List Frame) : (b.after frames).atlas = b.atlas :=
  after_keeps (P := fun b' => b'.atlas = b.atlas) (fun h H => h.atlas.trans H) frames rfl

end Broker

end Geocast
