import Geocast.Proofs.Session.Operations

/-! # Calls of the wire that fail

A session comes from one state to another by calls of its wire, and notes most of them in its
history (`Wire.Calls`). Every operation goes on in that way (`led_keeps`). An action that sends or
waits fails for lack of a channel, or with the error with which one of these calls failed
(`Failed`). -/

namespace Geocast

/-- A call of a wire from one state to another, with the event that a client notes of it, and with
the error if it failed. -/
inductive Wire.Call (W : Wire) : W.State → Option WireEvent → Option SessionError → W.State → Prop
  | opened {address id w c w'} (n : Nat) : W.dial address id w = (.ok c, w') →
    Call W w (some (.opened n address id)) none w'
  | refused {address id w e w'} : W.dial address id w = (.error e, w') →
    Call W w (some (.refused address id)) (some e) w'
  | sent {c p w w'} (n : Nat) (address : String) : W.send c p w = (.ok (), w') →
    Call W w (some (.sent n address p)) none w'
  | unsent {c p w e w'} (n : Nat) (address : String) : W.send c p w = (.error e, w') →
    Call W w (some (.sent n address p)) (some e) w'
  | received {c budget w p w'} (n : Nat) : W.recv c budget w = (.ok (some p), w') →
    Call W w (some (.received n p)) none w'
  | silent {c budget w w'} : W.recv c budget w = (.ok none, w') → Call W w none none w'
  | failed {c budget w e w'} : W.recv c budget w = (.error e, w') → Call W w none (some e) w'
  | closed {w} (c : W.Channel) (n : Nat) (address : String) :
    Call W w (some (.closed n address)) none (W.close c w)

/-- Calls of a wire one after the other, with their events and their errors, the newest first. -/
inductive Wire.Calls (W : Wire) : W.State → List WireEvent → List SessionError → W.State → Prop
  | refl (w : W.State) : Calls W w [] [] w
  | call {w events failures w' event failure w''} : Calls W w events failures w' →
    W.Call w' event failure w'' →
    Calls W w (event.toList ++ events) (failure.toList ++ failures) w''

namespace Session

variable {W : Wire} {α : Type} {o s s' : Session W} {failures : List SessionError}
  {e : SessionError}

/-- From `o` the session came to `s` by calls of its wire that failed with `failures`, if at all. -/
def Reached (o : Session W) (failures : List SessionError) (s : Session W) : Prop :=
  ∃ events, s.history = events ++ o.history ∧ W.Calls o.wire events failures s.wire

/-- From `o` the session came to `s` by calls of its wire. -/
def Led (o s : Session W) : Prop := ∃ failures, Reached o failures s

/-- There is no channel, or a call of the wire failed with `e` since `o`. -/
def Failed (o : Session W) (e : SessionError) (s : Session W) : Prop :=
  ∃ failures, Reached o failures s ∧ (e ∈ failures ∨ e = .channelClosed)

theorem Led.refl (o : Session W) : Led o o := ⟨[], [], rfl, .refl _⟩

theorem Failed.led (H : Failed o e s) : Led o s := H.imp fun _ h => h.1

namespace Reached

/-- One more call. -/
theorem call {event : Option WireEvent} {failure : Option SessionError}
    (H : Reached o failures s) (h : W.Call s.wire event failure s'.wire)
    (hhistory : s'.history = event.toList ++ s.history) :
    Reached o (failure.toList ++ failures) s' := by
  obtain ⟨events, hevents, hcalls⟩ := H
  refine ⟨event.toList ++ events, ?_, hcalls.call h⟩
  rw [hhistory, hevents, List.append_assoc]

theorem unfailing {event : Option WireEvent} (H : Reached o failures s)
    (h : W.Call s.wire event none s'.wire) (hhistory : s'.history = event.toList ++ s.history) :
    Reached o failures s' := H.call h hhistory

theorem failing {event : Option WireEvent} (H : Reached o failures s)
    (h : W.Call s.wire event (some e) s'.wire) (hhistory : s'.history = event.toList ++ s.history) :
    Failed o e s' :=
  ⟨_, H.call h hhistory, .inl List.mem_cons_self⟩

theorem silent (H : Reached o failures s) (hhistory : s'.history = s.history)
    (hwire : s'.wire = s.wire) : Reached o failures s' := by
  obtain ⟨events, hevents, hcalls⟩ := H
  exact ⟨events, hhistory.trans hevents, hwire ▸ hcalls⟩

theorem closed (H : Reached o failures s) : Reached o failures s.closed := by
  unfold Session.closed
  split
  · next l _ => exact H.unfailing (.closed l.channel l.number l.address) rfl
  · exact H.silent rfl rfl

theorem movedFrom (H : Reached o failures s') (s : Session W) :
    Reached o failures (s'.movedFrom s) := by
  unfold Session.movedFrom
  split
  · next l _ => exact H.unfailing (.closed l.channel l.number l.address) rfl
  · exact H.silent rfl rfl

end Reached

namespace Led

theorem silent (H : Led o s) (hhistory : s'.history = s.history) (hwire : s'.wire = s.wire) :
    Led o s' := H.imp fun _ h => h.silent hhistory hwire

theorem closed (H : Led o s) : Led o s.closed := H.imp fun _ h => h.closed

end Led

/-! ## Sending and waiting -/

theorem send_failed (p : Payload) : Keeps (Led o) (Failed o) (send p) := by
  rintro s ⟨failures, H⟩
  refine ends_send (fun _ => ⟨failures, H, .inr rfl⟩) (fun l w _ h => ?_) fun l e w _ h => ?_
  · exact ⟨_, H.unfailing (.sent l.number l.address h) rfl⟩
  · exact H.failing (.unsent l.number l.address h) rfl

theorem Reception.reached {judge : Payload → Verdict α} {deadline : Nat} {l : Link W}
    {r : Except SessionError (Option α)} (H : Reception judge deadline l s r s')
    (hs : Led o s) : Led o s' ∧ ∀ e, r = .error e → Failed o e s' := by
  induction H with
  | spent => exact ⟨hs, fun _ h => nomatch h⟩
  | @failed s e w _ hr =>
    obtain ⟨failures, hs⟩ := hs
    have hfailed : Failed o e { s with wire := w } := hs.failing (.failed hr) rfl
    refine ⟨hfailed.led, fun e' h => ?_⟩
    cases h
    exact hfailed
  | silent _ hr =>
    obtain ⟨failures, hs⟩ := hs
    exact ⟨⟨_, hs.unfailing (.silent hr) rfl⟩, fun _ h => nomatch h⟩
  | accepted _ hr =>
    obtain ⟨failures, hs⟩ := hs
    exact ⟨⟨_, hs.unfailing (.received l.number hr) rfl⟩, fun _ h => nomatch h⟩
  | parked _ hr _ _ ih | dropped _ hr _ _ ih =>
    obtain ⟨failures, hs⟩ := hs
    exact ih ⟨_, hs.unfailing (.received l.number hr) rfl⟩

theorem receive_failed (judge : Payload → Verdict α) (budget : Nat) :
    Keeps (Led o) (Failed o) (receive judge budget) := fun _ hs =>
  ends_receive (fun _ => hs.imp fun _ h => ⟨h, .inr rfl⟩) (fun _ _ _ _ H => (H.reached hs).1)
    fun _ _ _ _ H => (H.reached hs).2 _ rfl

theorem next?_failed (expected : List PayloadKind) (budget : Nat) :
    Keeps (Led o) (Failed o) (next? expected budget) := fun s hs =>
  ends_next? (fun _ _ _ => hs.silent rfl rfl) fun _ => receive_failed _ _ s hs

theorem listen_failed (action : FunctionAction) (id : RequestId) (budget : Nat) :
    Keeps (Led o) (Failed o) (listen action id budget) := fun _ hs =>
  ends_listen (fun _ _ _ => hs.silent rfl rfl) fun _ _ =>
    receive_failed _ _ _ (hs.silent rfl rfl)

/-! ## Operations -/

theorem Keeps.led {x : Action W α} (H : Keeps (Led o) (Failed o) x) :
    Keeps (Led o) (fun _ => Led o) x := fun s hs =>
  (H s hs).mono (fun _ _ h => h) fun _ _ h => h.led

theorem register_led : Keeps (Led o) (fun _ => Led o) register := by
  refine registerRetrying_keeps ?_ (fun _ _ hs => hs) 1
  refine .bind .get fun s => .bind (send_failed _).led fun _ => ?_
  refine .bind (next?_failed _ _).led fun p => ?_
  split
  · exact .pure _
  · exact .throw fun _ hs => hs

theorem handoff_led (target : BrokerInfo) : Keeps (Led o) (fun _ => Led o) (handoff target) := by
  rintro s ⟨failures, hs⟩
  simp only [handoff, ends_bind, ends_leave, ends_inHandoff, ends_closeChannel, ends_modify]
  have hleft : Reached o failures (s.left target) :=
    hs.silent (left_history s target) (left_wire s target)
  refine ends_dial (fun c w h => ?_) fun e w h => (hleft.failing (.refused h) rfl).led
  have hopened : Led o { s.left target with
      wire := w
      history := .opened (s.left target).opened target.address (s.left target).id ::
        (s.left target).history } := ⟨_, hleft.unfailing (.opened (s.left target).opened h) rfl⟩
  exact register_led _ (hopened.closed.silent rfl rfl)

theorem followRedirects_led (target : BrokerInfo) :
    Keeps (Led o) (fun _ => Led o) (followRedirects target) := by
  intro s hs
  rw [ends_followRedirects]
  have hstart : Led o { s with link := none, inbox := .empty } := hs.silent rfl rfl
  refine (hopUntilAccepted_keeps handoff_led (fun _ hs => hs) _ target _ hstart).mono
    (fun _ s' h => ?_) fun _ s' h => ?_
  · exact h.imp fun _ h => h.movedFrom s
  · exact h.closed.silent rfl rfl

theorem connect_led (address : String) : Keeps (Led o) (fun _ => Led o) (connect address) := by
  intro s hs
  simp only [connect, ends_bind, ends_closeChannel, ends_modify, ends_tryCatch, ends_throw]
  obtain ⟨failures, hclosed⟩ := hs.closed
  refine ends_dial (fun c w h => ?_) fun e w h => ?_
  · refine (register_led _ ⟨_, hclosed.unfailing (.opened s.closed.opened h) rfl⟩).mono
      (fun a s₁ h => ?_) fun _ _ h => h.closed
    cases a with
    | accepted => exact h
    | redirected target =>
      exact (followRedirects_led target s₁ h).mono (fun _ _ h => h) fun _ _ h => h.closed
  · exact (hclosed.failing (.refused h) rfl).led

/-- Whatever operations do, a session goes on by calls of its wire. -/
theorem led_keeps (o : Session W) : PartsKeep (Led o) where
  connect := connect_led
  followRedirects := followRedirects_led
  send p := (send_failed p).led
  next? expected budget := (next?_failed expected budget).led
  listen action id budget := (listen_failed action id budget).led
  closed _ hs := hs.closed
  noted _ hs _ _ _ := hs.silent rfl rfl

end Session

end Geocast
