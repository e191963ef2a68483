import Geocast.Proofs.Session.Accounts

/-! # Closing is final

Up to three channels of a session are open at once while it is handed from broker to broker, and
each way out of a handoff has to close other ones. `ClosedForGood` says of a history that nothing
happens on a channel after it was closed. With the accounts of the channels this is kept by every
operation, so a session leaves no channel open but the one in use, and uses none that it closed
(`no_channel_leaks`). -/

namespace Geocast

open WireEvent

/-- Nothing happens on a channel any more once it was closed. -/
def ClosedForGood (events : List WireEvent) : Prop :=
  events.Pairwise fun later earlier => ∀ n, earlier.closes n → later.channel? ≠ some n

namespace Ledger

variable {base n : Nat} {events : List WireEvent} {live : List Nat}

/-- What is still open was not closed yet. -/
theorem unclosed (H : Ledger base events live) (hn : n ∈ live) :
    events.countP (·.closes n) = 0 := by
  have hlive : 0 < live.count n := List.count_pos_iff.2 hn
  have hclosed := H.closed n
  have hopened := H.opened n
  split at hopened <;> omega

/-- What was not opened yet was not closed either. -/
theorem unclosed_of_le (H : Ledger base events live) (hn : base + openings events ≤ n) :
    events.countP (·.closes n) = 0 := by
  have hclosed := H.closed n
  rw [H.opened, if_neg (by omega)] at hclosed
  omega

/-- What is open was opened. -/
theorem exists_opened (H : Ledger base events live) (hn : n ∈ live) :
    ∃ address id, .opened n address id ∈ events := by
  have hlive : 0 < live.count n := List.count_pos_iff.2 hn
  have hclosed := H.closed n
  obtain ⟨e, he, hopens⟩ := List.countP_pos_iff.1 (show 0 < events.countP (·.opens n) by omega)
  cases e with
  | opened m address id =>
    obtain rfl : m = n := by simpa using hopens
    exact ⟨address, id, he⟩
  | _ => exact nomatch hopens

end Ledger

namespace ClosedForGood

variable {n : Nat} {e : WireEvent} {events more : List WireEvent}

theorem cons (H : ClosedForGood events)
    (he : ∀ n, e.channel? = some n → events.countP (·.closes n) = 0) :
    ClosedForGood (e :: events) := by
  refine List.pairwise_cons.2 ⟨fun e' he' n hcloses hn => ?_, H⟩
  exact List.countP_eq_zero.1 (he n hn) e' he' hcloses

theorem traffic (H : ClosedForGood events) (hn : events.countP (·.closes n) = 0)
    (hmore : ∀ e ∈ more, e.IsTraffic n) : ClosedForGood (more ++ events) := by
  induction more with
  | nil => exact H
  | cons e more ih =>
    obtain ⟨he, hmore⟩ := List.forall_mem_cons.1 hmore
    refine (ih hmore).cons fun m hm => ?_
    cases he.channel?.symm.trans hm
    have hmore : more.countP (·.closes n) = 0 :=
      List.countP_eq_zero.2 fun e he => by simp [(hmore e he).closes n]
    rw [List.countP_append, hmore, hn]

end ClosedForGood

namespace Session

variable {W : Wire} {o s s' : Session W} {n : Nat}

theorem Traffic.closedForGood (h : Traffic n s s') (H : ClosedForGood s.history)
    (hn : s.history.countP (·.closes n) = 0) : ClosedForGood s'.history := by
  obtain ⟨events, hhistory, hevents⟩ := h.events
  rw [hhistory]
  exact H.traffic hn hevents

theorem closedForGood_closed (H : ClosedForGood s.history)
    (hlink : ∀ l, s.link = some l → s.history.countP (·.closes l.number) = 0) :
    ClosedForGood s.closed.history := by
  unfold closed
  split
  · next l hl =>
    refine H.cons fun n hn => ?_
    cases hn
    exact hlink l hl
  · exact H

/-! ## Handing off -/

/-- On the way along a chain of redirects, the channel of the last hop is not closed yet, and
neither is the one where the chain began. -/
theorem Hopping.unclosed (H : Hopping o s) (ho : o.Accounted) {l : Link W}
    (hl : s.link = some l ∨ o.link = some l) : s.history.countP (·.closes l.number) = 0 := by
  refine (H.accounted ho).unclosed (List.mem_append.2 (hl.imp (fun hl => ?_) fun hl => ?_))
  all_goals simp [hl]

theorem handoff_closedForGood (ho : o.Accounted) (H : Hopping o s) (hs : ClosedForGood s.history)
    (target : BrokerInfo) : Ends s (handoff target) (fun _ s' => ClosedForGood s'.history)
      fun _ s' => ClosedForGood s'.history := by
  simp only [handoff, ends_bind, ends_leave, ends_inHandoff, ends_closeChannel, ends_modify]
  have hleft : Hopping o (s.left target) := H.left target
  have hs : ClosedForGood (s.left target).history := by rwa [left_history]
  refine ends_dial (fun c w _ => ?_) fun e w _ => hs.cons fun _ h => by cases h
  -- the new channel is open while that of the hop before is closed
  have hledger := hleft.accounted ho
  have hopened := hledger.open_ target.address (s.left target).id
  rw [← (s.left target).opened_eq] at hopened
  have hdialed := hs.cons (e := .opened (s.left target).opened target.address (s.left target).id)
    fun n hn => by
      cases hn
      exact hledger.unclosed_of_le (Nat.le_of_eq (s.left target).opened_eq.symm)
  have hclosed := closedForGood_closed (s := { s.left target with
    wire := w
    history := .opened (s.left target).opened target.address (s.left target).id ::
      (s.left target).history }) hdialed
    fun l hl => hopened.unclosed (List.mem_cons_of_mem _ (List.mem_append_left _
      (List.mem_map.2 ⟨l, Option.mem_toList.2 hl, rfl⟩)))
  have hhopped := hleft.hopped w c target.address target.address (s.left target).id
  exact (register_traffic (uses_of_link (by rfl))).mono
    (fun _ _ h => h.closedForGood hclosed (hhopped.unclosed ho (.inl rfl)))
    fun _ _ h => h.closedForGood hclosed (hhopped.unclosed ho (.inl rfl))

theorem hopUntilAccepted_closedForGood (ho : o.Accounted) (limit hops : Nat)
    (target : BrokerInfo) :
    Keeps (fun s => Hopping o s ∧ ClosedForGood s.history)
      (fun _ s => Hopping o s ∧ ClosedForGood s.history) (hopUntilAccepted limit hops target) := by
  refine hopUntilAccepted_keeps (fun target s hs => ?_) (fun _ hs => ?_) hops target
  · exact (handoff_hopping target s hs.1).and (handoff_closedForGood ho hs.1 hs.2 target)
  · exact hs

/-! ## Operations -/

/-- The channels are accounted for, and none was used after it was closed. -/
structure Tidy (s : Session W) : Prop where
  accounted : s.Accounted
  closings : ClosedForGood s.history

namespace Tidy

theorem unclosed (H : Tidy s) {l : Link W} (hl : s.link = some l) :
    s.history.countP (·.closes l.number) = 0 :=
  Ledger.unclosed H.accounted (by simp [hl])

theorem traffic (H : Tidy s) (hn : s.history.countP (·.closes n) = 0) (h : Traffic n s s') :
    Tidy s' :=
  ⟨h.accounted H.accounted, h.closedForGood H.closings hn⟩

theorem exists_uses (H : Tidy s) : ∃ n, s.Uses n ∧ s.history.countP (·.closes n) = 0 := by
  cases hl : s.link with
  | none =>
    refine ⟨s.opened, fun l h => ?_, ?_⟩
    · cases hl.symm.trans h
    · exact Ledger.unclosed_of_le H.accounted (Nat.le_of_eq s.opened_eq.symm)
  | some l => exact ⟨l.number, fun l' h => Option.some.inj (h.symm.trans hl) ▸ rfl, H.unclosed hl⟩

theorem closed (H : Tidy s) : Tidy s.closed :=
  ⟨H.accounted.closed, closedForGood_closed H.closings fun _ => H.unclosed⟩

end Tidy

theorem followRedirects_tidy (target : BrokerInfo) :
    Keeps (W := W) Tidy (fun _ => Tidy) (followRedirects target) := by
  intro s hs
  have H : Hopping s { s with link := none, inbox := .empty } :=
    ⟨⟨[], rfl, .empty _⟩, rfl, rfl, rfl⟩
  have hclosings : Ends s (followRedirects target) (fun _ s' => ClosedForGood s'.history)
      fun _ s' => ClosedForGood s'.history := by
    rw [ends_followRedirects]
    refine (hopUntilAccepted_closedForGood hs.accounted _ _ target _ ⟨H, hs.closings⟩).mono
      (fun _ s' h => ?_) fun _ s' h => ?_
    · unfold movedFrom
      split
      · next l hl =>
        refine h.2.cons fun n hn => ?_
        cases hn
        exact h.1.unclosed hs.accounted (.inr hl)
      · exact h.2
    · exact closedForGood_closed h.2 fun l hl => h.1.unclosed hs.accounted (.inl hl)
  exact ((followRedirects_accounted target s hs.accounted).and hclosings).mono
    (fun _ _ h => ⟨h.1, h.2⟩) fun _ _ h => ⟨h.1, h.2⟩

theorem connect_tidy (address : String) :
    Keeps (W := W) Tidy (fun _ => Tidy) (connect address) := by
  intro s hs
  have hs := hs.closed
  have hledger : Ledger 0 s.closed.history [] := by simpa [Accounted] using hs.accounted
  have hopened := hledger.open_ address s.closed.id
  rw [← s.closed.opened_eq] at hopened
  have hclosings := hs.closings.cons (e := .opened s.closed.opened address s.closed.id)
    fun n hn => by
      cases hn
      exact hledger.unclosed_of_le (Nat.le_of_eq s.closed.opened_eq.symm)
  have hnew := hopened.unclosed (List.mem_singleton.2 rfl)
  refine ends_connect_of_traffic
    (fun c w s₁ h => ⟨h.accounted hopened, h.closedForGood hclosings hnew⟩)
    (fun target s₁ hs₁ => (followRedirects_tidy target s₁ hs₁).mono (fun _ _ h => h)
      fun _ _ h => h.closed)
    (fun _ _ hs₁ => hs₁.closed) fun e w => ⟨?_, hs.closings.cons fun _ h => by cases h⟩
  simpa [Accounted] using hledger.refuse address s.closed.id

theorem tidy_keeps : PartsKeep (W := W) Tidy :=
  .of_traffic (fun _ hs => hs.exists_uses.imp fun _ h => ⟨h.1, fun _ => hs.traffic h.2⟩)
    connect_tidy followRedirects_tidy (fun _ hs => hs.closed)
    fun _ hs _ _ _ => ⟨hs.accounted, hs.closings⟩

theorem start_tidy (id : String) (location : Option Location) (options : SessionOptions)
    (wire : W.State) : Tidy (start id location options wire) := ⟨Ledger.empty 0, .nil⟩

/-- A channel is closed once, unless it is the one in use. -/
theorem Tidy.closed_once (H : Tidy s) {address id : String}
    (h : .opened n address id ∈ s.history) :
    s.history.countP (·.closes n) = if s.link.map Link.number = some n then 0 else 1 := by
  have hopened := Ledger.opened_once H.accounted h
  have hclosed := Ledger.closed H.accounted n
  have hlive : (s.link.toList.map Link.number).count n
      = if s.link.map Link.number = some n then 1 else 0 := by
    cases s.link with
    | none => rfl
    | some l => simp [List.count_singleton]
  rw [hlive, hopened] at hclosed
  by_cases hn : s.link.map Link.number = some n
  · rw [if_pos hn] at hclosed ⊢
    omega
  · rwa [if_neg hn] at hclosed ⊢

/-- After every run, whatever its operations came to, each channel that was opened was opened once,
and closed once unless it is the one in use. Nothing was sent or received on a channel, or done to
it in another way, after it was closed. -/
theorem no_channel_leaks (id : String) (location : Option Location) (options : SessionOptions)
    (wire : W.State) (ops : List Operation) :
    let s := (start id location options wire).after ops
    (∀ l, s.link = some l → ∃ address id, .opened l.number address id ∈ s.history) ∧
    (∀ n address id, .opened n address id ∈ s.history →
      s.history.countP (·.opens n) = 1 ∧
      s.history.countP (·.closes n) = if s.link.map Link.number = some n then 0 else 1) ∧
    ∀ later n address earlier, s.history = later ++ .closed n address :: earlier →
      ∀ e ∈ later, e.channel? ≠ some n := by
  have H : Tidy ((start id location options wire).after ops) :=
    tidy_keeps.after (start_tidy id location options wire) ops
  refine ⟨fun l hl => Ledger.exists_opened H.accounted (by simp [hl]),
    fun n address id h => ⟨Ledger.opened_once H.accounted h, H.closed_once h⟩,
    fun later n address earlier h e he => ?_⟩
  have hclosings := H.closings
  rw [h] at hclosings
  exact (List.pairwise_append.1 hclosings).2.2 e he _ (List.mem_cons_self ..) n (by simp)

end Session

end Geocast
