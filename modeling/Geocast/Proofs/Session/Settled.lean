import Geocast.Proofs.Session.Due
import Geocast.Proofs.Session.Operations

/-! # Settled sessions

A session is settled if no reply to an earlier request is left unread. On an orderly wire every
operation leaves a settled session settled, unless it times out (`settled_after`). A handoff opens
channels of its own, on which nothing is due, and does not touch those opened before. -/

namespace Geocast

namespace Session

open Script

variable {s s' o : Session Script.wire}

/-- A session whose wire is orderly and whose channel was opened on it. -/
structure Ordered (s : Session Script.wire) : Prop where
  wire : State.Orderly s.wire
  dialed : s.Dialed

/-- A session with nothing due. -/
structure Settled (s : Session Script.wire) : Prop extends Ordered s where
  due : s.due = []

/-- An error after which nothing is due unless it is a timeout. -/
def Settling (e : SessionError) (s : Session Script.wire) : Prop :=
  (∀ awaited, e ≠ .timeout awaited) → Settled s

theorem Ordered.stays (H : Ordered s) (h : Stays s s') : Ordered s' :=
  ⟨h.orderly H.dialed H.wire, h.dialed H.dialed⟩

theorem Ordered.ownReplies (H : Ordered s) : s.ownReplies.length ≤ 1 := by
  unfold Session.ownReplies
  split
  · exact Nat.zero_le 1
  · exact (H.wire.released _).1

theorem Settled.answered {expected : List PayloadKind} {p : Payload} (H : Settled s)
    (h : Answered expected p s s') : Settled s' ∧ s.ownReplies = [p] := by
  have hown : s.ownReplies = [p] := by
    have hmem := List.mem_of_find?_eq_some h.first
    rw [H.due, List.nil_append] at hmem
    have hlen := H.ownReplies
    match hr : s.ownReplies with
    | [] => simp [hr] at hmem
    | [q] => simpa [hr, eq_comm] using hmem
    | _ :: _ :: _ => simp [hr] at hlen
  refine ⟨⟨H.stays h.stays, ?_⟩, hown⟩
  have hp : p.kind ∈ expected := by simpa using List.find?_some h.first
  rw [h.rest, H.due, hown]
  simp [hp]

theorem Settled.unanswered {e : SessionError} (H : Settled s) (h : Unanswered e s s') :
    Settling e s' := by
  intro he
  refine ⟨H.stays h.stays, ?_⟩
  rcases h.rest with ⟨-, hd⟩ | ⟨-, ht⟩
  · rw [hd, H.due]
  · obtain ⟨awaited, rfl⟩ := ht H.dialed H.wire
    exact absurd rfl (he awaited)

/-- Without a channel nothing is due, and nothing is parked. -/
theorem Ordered.closed (H : Ordered s) : Settled s.closed := by
  unfold Session.closed
  cases hl : s.link with
  | none => exact ⟨⟨H.wire, nofun⟩, rfl⟩
  | some l => exact ⟨⟨H.wire, nofun⟩, rfl⟩

/-! ## Handoffs -/

/-- A session that has left alone the channels that were open on the wire of `o`. -/
structure Apart (o s : Session Script.wire) : Prop where
  opened : State.opened o.wire ≤ State.opened s.wire
  queue : ∀ n, n < State.opened o.wire → State.queue s.wire n = State.queue o.wire n
  link : ∀ l, s.link = some l → State.opened o.wire ≤ l.channel.number

theorem Apart.stays (H : Apart o s) (h : Stays s s') : Apart o s' where
  opened := h.opened ▸ H.opened
  queue n hn := by
    rw [h.other n fun l hl => by have := H.link l hl; omega, H.queue n hn]
  link l hl := H.link l (h.link ▸ hl)

theorem askToRegister_settled (H : Settled s) :
    Ends s askToRegister (fun _ s' => Settled s' ∧ Stays s s')
      fun _ s' => Ordered s' ∧ Stays s s' := by
  simp only [askToRegister, ends_bind, ends_get]
  exact ends_ask (by decide) (fun p s' h => ⟨(H.answered h).1, h.stays⟩)
    fun e s' h => ⟨H.stays h.stays, h.stays⟩

theorem registerRetrying_settled (retries : Nat) (H : Settled s) :
    Ends s (registerRetrying retries) (fun _ s' => Settled s' ∧ Stays s s')
      fun _ s' => Ordered s' ∧ Stays s s' := by
  induction retries generalizing s with
  | zero =>
    simp only [registerRetrying, ends_bind]
    exact (askToRegister_settled H).mono (fun p s₁ h => ends_ofOutcome_of_forall _ _
      (fun _ => h) fun _ => ⟨h.1.toOrdered, h.2⟩) fun _ _ h => h
  | succ retries ih =>
    simp only [registerRetrying, ends_bind]
    refine (askToRegister_settled H).mono (fun p s₁ h => ?_) fun _ _ h => h
    split
    · exact (ih h.1).mono (fun _ _ h' => ⟨h'.1, h.2.trans h'.2⟩)
        fun _ _ h' => ⟨h'.1, h.2.trans h'.2⟩
    · exact ends_ofOutcome_of_forall _ _ (fun _ => h) fun _ => ⟨h.1.toOrdered, h.2⟩

theorem closed_wire (s : Session Script.wire) : s.closed.wire = s.wire := by
  unfold Session.closed
  split <;> rfl

/-- A session `s'` that has just opened a channel on the wire of `s`. -/
structure Fresh (s s' : Session Script.wire) : Prop where
  link : ∃ l, s'.link = some l ∧ l.channel.number = State.opened s.wire
  wire : s'.wire = { s.wire with opened := State.opened s.wire + 1 }
  inbox : s'.inbox = .empty

theorem Ordered.fresh (H : Ordered s) (h : Fresh s s') : Settled s' := by
  obtain ⟨⟨l, hl, hn⟩, hw, hi⟩ := h
  refine ⟨⟨hw ▸ H.wire.opened, fun l' hl' => ?_⟩, ?_⟩
  · cases hl.symm.trans hl'
    rw [hw]
    exact hn ▸ Nat.lt_succ_self _
  · have hq : State.queue s'.wire (State.opened s.wire) = [] := by
      rw [hw]
      exact H.wire.unopened _ (Nat.le_refl _)
    rw [due_of_link hl, hi, hn, hq]
    rfl

theorem Apart.fresh (H : Apart o s) (h : Fresh s s') : Apart o s' := by
  obtain ⟨⟨l, hl, hn⟩, hw, -⟩ := h
  refine ⟨hw ▸ Nat.le_succ_of_le H.opened, fun n h => ?_, fun l' hl' => ?_⟩
  · rw [hw]
    exact H.queue n h
  · cases hl.symm.trans hl'
    exact hn ▸ H.opened

theorem register_settled (H : Ordered s) (ho : Apart o s) (h : Fresh s s') :
    Ends s' register (fun _ s₁ => Settled s₁ ∧ Apart o s₁) fun _ s₁ => Ordered s₁ ∧ Apart o s₁ :=
  (registerRetrying_settled 1 (H.fresh h)).mono (fun _ _ h' => ⟨h'.1, (ho.fresh h).stays h'.2⟩)
    fun _ _ h' => ⟨h'.1, (ho.fresh h).stays h'.2⟩

theorem hopUntilAccepted_settled (limit hops : Nat) (target : BrokerInfo) (H : Ordered s)
    (ho : Apart o s) : Ends s (hopUntilAccepted limit hops target)
      (fun _ s' => Settled s' ∧ Apart o s') fun _ s' => Ordered s' ∧ Apart o s' := by
  induction hops generalizing target s with
  | zero => exact ⟨H, ho⟩
  | succ hops ih =>
    simp only [hopUntilAccepted, handoff, ends_bind, ends_leave, ends_inHandoff, ends_closeChannel,
      ends_modify]
    refine ends_dial (fun c w h => ?_) fun e w h => ?_
    · obtain ⟨hn, hw⟩ := opened_of_dial h
      rw [left_wire] at hn hw
      refine (register_settled H ho ⟨?_, ?_, ?_⟩).mono (fun a s₁ h₁ => ?_) fun _ _ h₁ => h₁
      · exact ⟨_, rfl, hn⟩
      · exact (closed_wire _).trans hw
      · exact closed_inbox _
      · cases a with
        | accepted => exact h₁
        | redirected next => exact ih next h₁.1.toOrdered h₁.2
    · have hw : w = s.wire := (eq_of_dial_error h).trans (left_wire ..)
      have hl := left_link s target
      exact ⟨⟨hw ▸ H.wire, fun l h => hw ▸ H.dialed l (hl ▸ h)⟩,
        ⟨hw ▸ ho.opened, fun n h => hw ▸ ho.queue n h, fun l h => ho.link l (hl ▸ h)⟩⟩

theorem followRedirects_settled (target : BrokerInfo) (H : Settled s) :
    Ends s (followRedirects target) (fun _ => Settled) fun _ => Settled := by
  rw [ends_followRedirects]
  have hs : Ordered { s with link := none, inbox := .empty } := ⟨H.wire, nofun⟩
  have ho : Apart s { s with link := none, inbox := .empty } :=
    ⟨Nat.le_refl _, fun _ _ => rfl, nofun⟩
  refine (hopUntilAccepted_settled _ _ _ hs ho).mono (fun _ s' h => ?_) fun _ s' ⟨h, ha⟩ => ?_
  · unfold movedFrom
    split <;> exact ⟨⟨h.1.wire, h.1.dialed⟩, h.1.due⟩
  · refine ⟨⟨(closed_wire s').symm ▸ h.wire, fun l hl => ?_⟩, ?_⟩
    · exact (closed_wire s').symm ▸ Nat.lt_of_lt_of_le (H.dialed l hl) ha.opened
    · rw [← H.due]
      unfold Session.due underWay
      dsimp only
      split
      · rfl
      · next l hl => rw [closed_wire, ha.queue _ (H.dialed l hl)]

/-! ## Operations -/

theorem conclude_settled (r : Request) (p : Payload) (H : Settled s) :
    Ends s (r.conclude p) (fun _ => Settled) fun _ => Settled := by
  have hmove (l : Location) : Settled { s with location := some l } :=
    ⟨⟨H.wire, H.dialed⟩, H.due⟩
  unfold Request.conclude
  split
  case h_6 =>
    simp only [moveTo, ends_bind, ends_modify]
    exact followRedirects_settled _ (hmove _)
  case h_7 =>
    simp only [moveTo, ends_bind, ends_modify, ends_closeChannel]
    exact (hmove _).toOrdered.closed
  all_goals exact ⟨⟨H.wire, H.dialed⟩, H.due⟩

theorem perform_settled (r : Request) : Keeps Settled Settling (r.perform) := by
  intro s H
  by_cases hr : r.Tracked s
  · exact ends_perform_of_tracked hr fun _ => H
  · refine ends_perform hr ?_
    simp only [Request.ask, ends_bind, ends_get]
    refine ends_ask r.publish_notMem_replies (fun p s' h => ?_) fun e s' h => H.unanswered h
    exact (conclude_settled r p (H.answered h).1).mono (fun _ _ h => h) fun _ _ h _ => h

theorem connect_settled (address : String) : Keeps Settled Settling (connect address) := by
  intro s H
  simp only [connect, ends_bind, ends_closeChannel, ends_modify, ends_tryCatch, ends_throw]
  refine ends_dial (fun c w h => ?_) fun e w h => ?_
  · obtain ⟨hn, hw⟩ := opened_of_dial h
    rw [closed_wire] at hn hw
    refine (registerRetrying_settled 1 (H.fresh ⟨?_, ?_, ?_⟩)).mono (fun a s₁ h₁ => ?_)
      fun e s₁ h₁ _ => h₁.1.closed
    · exact ⟨_, rfl, hn⟩
    · exact hw
    · exact closed_inbox s
    · split
      · exact h₁.1
      · exact (followRedirects_settled _ h₁.1).mono (fun _ _ h => h)
          fun _ _ h _ => h.toOrdered.closed
  · cases eq_of_dial_error h
    exact fun _ => ⟨⟨H.closed.wire, H.closed.dialed⟩, H.closed.due⟩

theorem disconnect_settled : Keeps Settled Settling disconnect := fun s H =>
  ends_disconnect (Q := Ordered) H.toOrdered
    ((send_due s _).mono (fun _ _ h => H.stays h.2.1) fun _ _ h => H.stays h.2.1)
    fun _ h => ⟨⟨h.closed.wire, h.closed.dialed⟩, h.closed.due⟩

/-- A wait for publications leaves a settled session settled. -/
theorem receive_settled {α : Type} {judge : Payload → Verdict α} (budget : Nat)
    (hjudge : ∀ p, (Item.payload p).reply? ≠ none → judge p = .park) :
    Keeps Settled Settling (receive judge budget) := by
  intro s H
  refine ends_receive (fun _ _ => H) (fun l a s' hl h => ?_) fun l e s' hl h => ?_
  · exact ⟨H.stays (h.stays hl), (h.due_eq hl hjudge).trans H.due⟩
  · exact absurd rfl (h.sound hl H.wire e)

theorem nextPublication_settled (budget : Nat) :
    Keeps Settled Settling (nextPublication budget) := by
  refine nextPublication_keeps (fun budget s H => ?_) (fun _ H _ _ => H) budget
  refine ends_next? (fun p i h => ?_) fun _ => receive_settled budget (fun p hp => ?_) s H
  · have hr : s.inbox.replies = [] := (List.append_eq_nil_iff.1 H.due).1
    rcases Inbox.take?_cases h with ⟨hfound, -⟩ | ⟨-, -, _, _, -, -, rfl⟩
    · rw [hr] at hfound
      exact nomatch hfound
    · exact ⟨⟨H.wire, H.dialed⟩, H.due⟩
  · cases p with
    | publish => exact absurd rfl hp
    | _ => rfl

theorem listen_settled (action : FunctionAction) (id : RequestId) (budget : Nat) :
    Keeps Settled Settling (listen action id budget) := by
  intro s H
  have hs (ps : List Publication) :
      Settled { s with inbox := { s.inbox with publications := ps } } :=
    ⟨⟨H.wire, H.dialed⟩, H.due⟩
  refine ends_listen (fun ps _ _ => hs ps) fun ps _ =>
    receive_settled budget (fun p hp => ?_) _ (hs ps)
  cases p with
  | publish => exact absurd rfl hp
  | _ => rfl

/-- Every operation leaves a settled session settled, unless it times out. -/
theorem operation_settled : ∀ op : Operation, Keeps Settled Settling op.perform :=
  OperationKeeps.operation {
    connect := connect_settled
    disconnect := disconnect_settled
    perform := perform_settled
    nextPublication := nextPublication_settled
    listen := listen_settled
    followRedirects := fun target _ H =>
      (followRedirects_settled target H).mono (fun _ _ h => h) fun _ _ h _ => h
    astray := fun _ H => ⟨fun _ => H, fun _ _ => H⟩ }

/-- An outcome that is no timeout. -/
def InTime (x : (op : Operation) × Except SessionError op.Result) : Prop :=
  ∀ awaited, x.2 ≠ .error (.timeout awaited)

/-- A run in which nothing timed out leaves nothing due. -/
theorem settled_after {ops : List Operation} (H : Settled s) (h : ∀ x ∈ s.outcomes ops, InTime x) :
    Settled (s.after ops) := by
  refine after_keeps (fun s op H ht => ?_) H h
  have hop := operation_settled op s H
  rcases hr : exec op.perform s with ⟨e | a, s'⟩
  · exact hop.error hr fun awaited he => ht awaited (by rw [hr, he])
  · exact hop.ok hr

theorem settled_start {w : State} (hw : w.Orderly) (id : String) (location : Option Location)
    (options : SessionOptions) : Settled (start (W := Script.wire) id location options w) :=
  ⟨⟨hw, nofun⟩, rfl⟩

end Session

end Geocast
