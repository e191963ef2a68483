import Geocast.Session.Script

/-! # Queues of a scripted wire

The items on their way to one channel of a scripted wire form a queue. Sending puts the next batch
of the address behind it (`send_cases`) and receiving takes its first item (`recv_cases`). A wire is
`Orderly` if each payload that is sent has at most one reply and no channel fails. -/

namespace Geocast

namespace Script

namespace Item

/-- What receiving an item yields. -/
def outcome : Item → Except SessionError (Option Payload)
  | payload p => .ok (some p)
  | failure e => .error e

/-- The payload of an item unless it is a publication. All others are replies to what was sent. -/
def reply? : Item → Option Payload
  | payload (.publish _) => none
  | payload p => some p
  | failure _ => none

end Item

namespace State

/-- The items on their way to a channel, by its number. -/
def queue (w : State) (n : Nat) : List Item := (w.arrivals.filter (·.channel = n)).map Arrival.item

/-- What the next payload sent to an address sets off. -/
def released (w : State) (address : String) : List Item :=
  match w.script.get? address with
  | some (.deliver items :: _) => items.map Prod.snd
  | _ => []

/-- All batches that are left satisfy `P`. -/
def Promises (P : Batch → Prop) (w : State) : Prop :=
  ∀ address batches, w.script.get? address = some batches → ∀ b ∈ batches, P b

end State

open State

/-! ## The operations of the wire -/

/-- A wire from which receiving on the channel numbered `n` took the item `i`. -/
structure Taken (n : Nat) (i : Item) (w w' : State) : Prop where
  own : w.queue n = i :: w'.queue n
  other : ∀ m, m ≠ n → w'.queue m = w.queue m
  script : w'.script = w.script
  opened : w'.opened = w.opened

theorem recv_cases (c : Channel) (budget : Nat) (w : State) :
    (∃ t, recv c budget w = (.ok none, { w with clock := t })) ∨
    ∃ i w', Taken c.number i w w' ∧ recv c budget w = (i.outcome, w') := by
  unfold recv
  cases hf : w.arrivals.find? (Arrival.isFor c) with
  | none => exact .inl ⟨_, rfl⟩
  | some a =>
    dsimp only
    split
    · exact .inl ⟨_, rfl⟩
    · obtain ⟨ha, before, after, hw, hb⟩ := List.find?_eq_some_iff_append.1 hf
      have herase : w.arrivals.eraseP (Arrival.isFor c) = before ++ after := by
        rw [hw, List.eraseP_append_right _ (by simpa using hb), List.eraseP_cons_of_pos ha]
      have hown : a.channel = c.number := of_decide_eq_true ha
      have hbefore : before.filter (·.channel = c.number) = [] := by
        simpa [Arrival.isFor] using hb
      refine .inr ⟨a.item, { w with
        clock := max w.clock a.ready
        arrivals := w.arrivals.eraseP (Arrival.isFor c) }, ⟨?_, fun m hm => ?_, rfl, rfl⟩, ?_⟩
      · simp only [queue, herase]
        rw [hw, List.filter_append, List.filter_append, hbefore,
          List.filter_cons_of_pos (by simpa using hown)]
        rfl
      · simp only [queue, herase]
        rw [hw, List.filter_append, List.filter_append,
          List.filter_cons_of_neg (by simpa [hown] using hm.symm)]
      · cases a.item <;> rfl

section
variable {c : Channel} {budget : Nat} {w w' : State}

theorem taken_of_recv {p : Payload} (h : recv c budget w = (.ok (some p), w')) :
    Taken c.number (.payload p) w w' := by
  rcases recv_cases c budget w with ⟨t, h'⟩ | ⟨i, w'', H, h'⟩
  · exact nomatch h'.symm.trans h
  cases i with
  | payload q => cases h'.symm.trans h; exact H
  | failure e => exact nomatch h'.symm.trans h

theorem taken_of_recv_error {e : SessionError} (h : recv c budget w = (.error e, w')) :
    Taken c.number (.failure e) w w' := by
  rcases recv_cases c budget w with ⟨t, h'⟩ | ⟨i, w'', H, h'⟩
  · exact nomatch h'.symm.trans h
  cases i with
  | payload q => exact nomatch h'.symm.trans h
  | failure e' => cases h'.symm.trans h; exact H

theorem clock_of_recv_none (h : recv c budget w = (.ok none, w')) :
    ∃ t, w' = { w with clock := t } := by
  rcases recv_cases c budget w with ⟨t, h'⟩ | ⟨i, w'', H, h'⟩
  · cases h'.symm.trans h
    exact ⟨t, rfl⟩
  · cases i <;> exact nomatch h'.symm.trans h

end

/-- A wire on which a payload was sent on the channel `c`, and released `items`. -/
structure Added (n : Nat) (items : List Item) (w w' : State) : Prop where
  own : w'.queue n = w.queue n ++ items
  other : ∀ m, m ≠ n → w'.queue m = w.queue m
  opened : w'.opened = w.opened
  promises : ∀ {P}, w.Promises P → w'.Promises P

theorem State.Promises.tail {P : Batch → Prop} {w : State} (H : w.Promises P) {address : String}
    {b : Batch} {bs : List Batch} (h : w.script.get? address = some (b :: bs)) :
    Promises P { w with script := w.script.insert address bs } := by
  intro address' batches h'
  rw [Table.get?_insert] at h'
  split at h'
  · cases h'
    exact fun b' hb => H _ _ h b' (List.mem_cons_of_mem _ hb)
  · exact H _ _ h'

theorem send_cases (c : Channel) (p : Payload) (w : State) : ∃ w',
    Added c.number (w.released c.address) w w' ∧ (send c p w = (.ok (), w') ∨
      send c p w = (.error (.transport "send failed"), w') ∧ w.released c.address = []) := by
  unfold send
  split
  · next b bs hs =>
    cases b with
    | fail =>
      have h : w.released c.address = [] := by simp [released, hs]
      refine ⟨_, ?_, .inr ⟨rfl, h⟩⟩
      exact ⟨by simp [h, queue], fun _ _ => rfl, rfl, fun H => H.tail hs⟩
    | deliver items =>
      refine ⟨_, ?_, .inl rfl⟩
      refine ⟨?_, fun m hm => ?_, rfl, fun H => H.tail hs⟩
      · simp only [queue, released, hs, List.filter_append, List.filter_map, Function.comp_def,
          decide_true, List.map_append, List.map_map]
        rw [List.filter_eq_self.2 fun _ _ => rfl]
      · simp [queue, List.filter_map, Function.comp_def, hm.symm]
  · next hs =>
    have h : w.released c.address = [] := by
      unfold released
      split
      · next h => exact absurd h (hs _ _)
      · rfl
    exact ⟨w, ⟨by simp [h], fun _ _ => rfl, rfl, id⟩, .inl rfl⟩

theorem opened_of_dial {address clientId : String} {c : Channel} {w w' : State}
    (h : wire.dial address clientId w = (.ok c, w')) :
    c.number = w.opened ∧ w' = { w with opened := w.opened + 1 } := by
  unfold wire dial at h
  dsimp only at h
  split at h
  · exact nomatch h
  · cases h
    exact ⟨rfl, rfl⟩

theorem eq_of_dial_error {address clientId : String} {e : SessionError} {w w' : State}
    (h : wire.dial address clientId w = (.error e, w')) : w' = w := by
  unfold wire dial at h
  dsimp only at h
  split at h
  · cases h
    rfl
  · exact nomatch h

/-! ## Orderly wires -/

/-- A batch with at most one reply, and no failure of the channel. -/
def Batch.Single : Batch → Prop
  | .fail => True
  | .deliver items => (items.filterMap (·.2.reply?)).length ≤ 1 ∧ ∀ x ∈ items, ∀ e, x.2 ≠ .failure e

/-- A wire on which each payload that is sent gets at most one reply, after any delay. -/
structure State.Orderly (w : State) : Prop where
  single : w.Promises Batch.Single
  sound : ∀ n e, .failure e ∉ w.queue n
  unopened : ∀ n, w.opened ≤ n → w.queue n = []

theorem State.Promises.empty (P : Batch → Prop) (refused : List String) (epoch : Nat) :
    (Script.start refused ∅ epoch).Promises P := by
  intro address batches h
  exact nomatch (Table.get?_empty address).symm.trans h

theorem State.Promises.insert {P : Batch → Prop} {refused : List String}
    {script : Table String (List Batch)} {epoch : Nat}
    (H : (Script.start refused script epoch).Promises P)
    {address : String} {batches : List Batch} (h : ∀ b ∈ batches, P b) :
    (Script.start refused (script.insert address batches) epoch).Promises P := by
  intro address' batches' h'
  have h' : (script.insert address batches).get? address' = some batches' := h'
  rw [Table.get?_insert] at h'
  split at h'
  · cases h'
    exact h
  · exact H _ _ h'

theorem orderly_start {refused : List String} {script : Table String (List Batch)} {epoch : Nat}
    (h : (Script.start refused script epoch).Promises Batch.Single) :
    (Script.start refused script epoch).Orderly :=
  ⟨h, fun _ _ => List.not_mem_nil, fun _ _ => rfl⟩

namespace State.Orderly

variable {w w' : State} {n : Nat} {i : Item}

theorem released (H : w.Orderly) (address : String) :
    ((w.released address).filterMap Item.reply?).length ≤ 1 ∧
      ∀ e, .failure e ∉ w.released address := by
  unfold State.released
  split
  · next items _ hs =>
    obtain ⟨hl, hf⟩ := H.single _ _ hs _ List.mem_cons_self
    refine ⟨by simpa [List.filterMap_map, Function.comp_def] using hl, fun e he => ?_⟩
    obtain ⟨x, hx, hxe⟩ := List.mem_map.1 he
    exact hf x hx e hxe
  · exact ⟨Nat.zero_le 1, fun _ => List.not_mem_nil⟩

theorem taken (H : w.Orderly) (h : Taken n i w w') : w'.Orderly where
  single address batches hb := H.single address batches (h.script ▸ hb)
  sound m e he := by
    by_cases hm : m = n
    · subst hm
      exact H.sound m e (h.own ▸ List.mem_cons_of_mem _ he)
    · exact H.sound m e (h.other m hm ▸ he)
  unopened m hm := by
    by_cases hmn : m = n
    · subst hmn
      have := H.unopened m (h.opened ▸ hm)
      rw [h.own] at this
      exact nomatch this
    · rw [h.other m hmn, H.unopened m (h.opened ▸ hm)]

theorem added {address : String} (H : w.Orderly) (hn : n < w.opened)
    (h : Added n (w.released address) w w') : w'.Orderly where
  single := h.promises H.single
  sound m e he := by
    by_cases hm : m = n
    · subst hm
      rw [h.own, List.mem_append] at he
      exact he.elim (H.sound m e) ((H.released address).2 e)
    · exact H.sound m e (h.other m hm ▸ he)
  unopened m hm := by
    rw [h.opened] at hm
    rw [h.other m (by omega), H.unopened m hm]

theorem clock (H : w.Orderly) (t : Nat) : Orderly { w with clock := t } := ⟨H.1, H.2, H.3⟩

theorem opened (H : w.Orderly) : Orderly { w with opened := w.opened + 1 } :=
  ⟨H.1, H.2, fun n hn => H.unopened n (Nat.le_of_succ_le hn)⟩

end State.Orderly

end Script

end Geocast
