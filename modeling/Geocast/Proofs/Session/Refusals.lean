import Geocast.Federation
import Geocast.Proofs.Session.Consistency
import Geocast.Proofs.Session.Failures
import Geocast.Proofs.Session.Selecting

/-! # Where refusals come from

A client waits for replies only, and takes nothing for the reply but what it waits for. Every reply
gives a reason, so no operation comes upon a payload of which it can make nothing, and a refusal
gives the reason of a payload that came in, unless a call of the wire failed with such an error
itself (`Grounded`). What is parked came in before, since sessions are consistent. So this holds of
each operation (`grounded_keeps`) and, with what a wait for a reply comes to, of every run
(`await_selective`). -/

namespace Geocast

namespace Federation

variable {w w' : wire.State} {event : Option WireEvent} {events : List WireEvent} {e : SessionError}
  {failures : List SessionError}

/-- A federation only fails to open channels, to addresses where there is no broker. -/
theorem call_transport (h : wire.Call w event (some e) w') : ∃ cause, e = .transport cause := by
  cases h with
  | @refused address _ _ _ _ h =>
    change dial address _ w = _ at h
    unfold dial at h
    split at h
    · cases h
      exact ⟨_, rfl⟩
    · cases h
  | unsent _ _ h => cases h
  | @failed c _ _ _ _ h =>
    change recv c _ w = _ at h
    unfold recv at h
    split at h <;> cases h

theorem calls_transport (H : wire.Calls w events failures w') (he : e ∈ failures) :
    ∃ cause, e = .transport cause := by
  induction H with
  | refl => exact absurd he List.not_mem_nil
  | @call _ _ _ _ failure _ _ h ih =>
    cases failure with
    | none => exact ih he
    | some e' =>
      rcases List.mem_cons.1 he with rfl | he
      · exact call_transport h
      · exact ih he

end Federation

/-- The kinds of payloads by which brokers reply to clients. -/
def replyKinds : List PayloadKind := [.connAck, .disconnect, .pingResp, .subAck, .unsubAck, .pubAck]

/-- Every reply gives a reason. -/
theorem Payload.exists_reason {p : Payload} (h : p.kind ∈ replyKinds) :
    ∃ reason, p.reason? = some reason := by
  cases p with
  | connAck reason | disconnect reason | pingResp reason | subAck reason | unsubAck reason
  | pubAck reason => exact ⟨reason, rfl⟩
  | _ => simp [kind, replyKinds] at h

theorem Request.replies_subset (r : Request) : r.replies ⊆ replyKinds := by
  cases r <;> simp [replies, replyKinds]

theorem registrationReplies_subset : registrationReplies ⊆ replyKinds := by
  simp [registrationReplies, replyKinds]

namespace Session

variable {W : Wire} {α : Type} {o s s' : Session W} {e : SessionError} {p : Payload}
  {expected : List PayloadKind}

/-- The payload came in on some channel. -/
def Received (p : Payload) (s : Session W) : Prop := ∃ n, .received n p ∈ s.history

/-- From `o` the session came to `s` by calls of its wire, and all that is parked came in on some
channel. -/
structure Known (o s : Session W) : Prop where
  led : Led o s
  received : ∀ p ∈ s.inbox.contents, Received p s

theorem Received.mono (H : Received p s) (h : s.history <:+ s'.history) : Received p s' :=
  H.imp fun _ hp => h.subset hp

theorem Known.supplied (H : Known o s) (h : Supplied s s') (hled : Led o s') : Known o s' where
  led := hled
  received p hp := (h.parked p hp).elim (fun hp => (H.received p hp).mono h.history)
    fun ⟨l, _, hp⟩ => ⟨l.number, hp⟩

theorem known_of_empty (hled : Led o s) (h : s.inbox = .empty) : Known o s where
  led := hled
  received p hp := by
    rw [h] at hp
    exact absurd hp List.not_mem_nil

theorem Consistent.known (H : Consistent s) (hled : Led o s) : Known o s := by
  rcases H with ⟨l, H, -⟩ | ⟨-, hempty⟩
  · exact ⟨hled, fun p hp => ⟨l.number, H.parked p hp⟩⟩
  · exact known_of_empty hled hempty

/-- If the error is that the broker refused, then by a payload that came in. It is not that a
payload was of no use. Only calls of the wire since `o` make exceptions. -/
def Grounded (o : Session W) (e : SessionError) (s : Session W) : Prop :=
  (∃ failures, Reached o failures s ∧ e ∈ failures) ∨ match e with
    | .rejected reason => ∃ p, Received p s ∧ p.reason? = some reason
    | .unexpectedReply _ => False
    | _ => True

theorem Grounded.closed (H : Grounded o e s) : Grounded o e s.closed := by
  refine H.imp (fun ⟨failures, hs, he⟩ => ⟨failures, hs.closed, he⟩) fun H => ?_
  cases e with
  | rejected reason =>
    obtain ⟨p, hp, hreason⟩ := H
    exact ⟨p, hp.mono (history_closed s), hreason⟩
  | unexpectedReply kind => exact H
  | _ => trivial

theorem Failed.grounded (H : Failed o e s) : Grounded o e s := by
  obtain ⟨failures, hs, he | rfl⟩ := H
  · exact .inl ⟨failures, hs, he⟩
  · exact .inr trivial

/-- A reply that is taken for a refusal came in as such. -/
theorem grounded_rejection (hkind : p.kind ∈ replyKinds) (hp : Received p s) :
    Grounded o (rejection p) s := by
  obtain ⟨reason, hreason⟩ := Payload.exists_reason hkind
  refine .inr ?_
  rw [rejection, hreason]
  exact ⟨p, hp, hreason⟩

/-! ## Waiting -/

/-- A wait returns what is expected and came in. -/
theorem next?_reads (hs : Known o s) (expected : List PayloadKind) (budget : Nat) :
    Ends s (next? expected budget)
      (fun a s' => Known o s' ∧ ∀ p, a = some p → p.kind ∈ expected ∧ Received p s')
      (Grounded o) := by
  have hreads : Ends s (next? expected budget)
      (fun a s' => ∀ p, a = some p → p.kind ∈ expected ∧ Received p s') fun _ _ => True := by
    refine ends_next? (fun p i h q hq => ?_) fun _ => ?_
    · cases hq
      obtain ⟨hfind, -⟩ := Inbox.contents_take? h
      have hkind : p.kind ∈ expected := by simpa using List.find?_some hfind
      exact ⟨hkind, hs.received p (List.mem_of_find?_eq_some hfind)⟩
    · refine ends_receive (fun _ => trivial) (fun l a s' _ H p hp => ?_) fun _ _ _ _ _ => trivial
      cases hp
      obtain ⟨between, hhistory, -⟩ := H.came rfl
      exact ⟨H.kind_mem rfl, l.number, hhistory ▸ List.mem_cons_self⟩
  have hends := (next?_failed expected budget s hs.led).and
    ((next?_supplied s expected budget).and hreads)
  exact hends.mono (fun _ _ h => ⟨hs.supplied h.2.1 h.1, h.2.2⟩) fun _ _ h => h.1.grounded

theorem await_reads (hs : Known o s) (expected : List PayloadKind) (budget : Nat)
    (awaited : String) : Ends s (await expected budget awaited)
      (fun p s' => Known o s' ∧ p.kind ∈ expected ∧ Received p s') (Grounded o) := by
  rw [await, ends_bind]
  refine (next?_reads hs expected budget).mono (fun a s' h => ?_) fun _ _ h => h
  cases a with
  | none => exact .inr trivial
  | some p => exact ⟨h.1, h.2 p rfl⟩

theorem send_known (hs : Known o s) (p : Payload) :
    Ends s (send p) (fun _ => Known o) (Grounded o) :=
  ((send_failed p s hs.led).and (send_supplied s p)).mono (fun _ _ h => hs.supplied h.2 h.1)
    fun _ _ h => h.1.grounded

/-! ## Registering -/

theorem askToRegister_reads (hs : Known o s) : Ends s askToRegister
    (fun p s' => Known o s' ∧ p.kind ∈ registrationReplies ∧ Received p s') (Grounded o) := by
  simp only [askToRegister, ends_bind, ends_get]
  exact (send_known hs _).mono (fun _ _ h => await_reads h _ _ _) fun _ _ h => h

/-- A reply to a registration is understood, or it refuses. -/
theorem registration_grounded (hkind : p.kind ∈ registrationReplies) (hp : Received p s) :
    Ends s (ofOutcome (registration p) : Action W Registration) (fun _ _ => True)
      (Grounded o) := by
  unfold registration
  split
  · exact trivial
  · exact trivial
  · exact .inr trivial
  · exact grounded_rejection (registrationReplies_subset hkind) hp

theorem registerRetrying_grounded (retries : Nat) (hs : Known o s) :
    Ends s (registerRetrying retries) (fun _ _ => True) (Grounded o) := by
  induction retries generalizing s with
  | zero =>
    rw [registerRetrying, ends_bind]
    exact (askToRegister_reads hs).mono (fun _ _ h => registration_grounded h.2.1 h.2.2)
      fun _ _ h => h
  | succ retries ih =>
    rw [registerRetrying, ends_bind]
    refine (askToRegister_reads hs).mono (fun p s' h => ?_) fun _ _ h => h
    split
    · exact ih h.1
    · exact registration_grounded h.2.1 h.2.2

theorem followRedirects_grounded (target : BrokerInfo) (s : Session W) :
    Ends s (followRedirects target) (fun _ _ => True) (Grounded o) := by
  rw [ends_followRedirects]
  refine (hopUntilAccepted_error _ _ _ _).mono (fun _ _ h => h) ?_
  rintro e s' (rfl | ⟨t, cause, rfl⟩)
  · exact .inr trivial
  · exact .inr trivial

theorem connect_grounded (hs : Led o s) (address : String) :
    Ends s (connect address) (fun _ _ => True) (Grounded o) := by
  simp only [connect, ends_bind, ends_closeChannel, ends_modify, ends_tryCatch, ends_throw]
  obtain ⟨failures, hclosed⟩ := hs.closed
  refine ends_dial (fun c w h => ?_) fun e w h => (hclosed.failing (.refused h) rfl).grounded
  refine (registerRetrying_grounded 1 ?_).mono (fun a s₁ _ => ?_) fun _ _ h => h.closed
  · exact known_of_empty ⟨_, hclosed.unfailing (.opened s.closed.opened h) rfl⟩ (closed_inbox s)
  · cases a with
    | accepted => exact trivial
    | redirected target =>
      exact (followRedirects_grounded target s₁).mono (fun _ _ h => h) fun _ _ h => h.closed

/-! ## Requests -/

theorem ask_reads (hs : Known o s) (r : Request) : Ends s r.ask
    (fun p s' => p.kind ∈ r.replies ∧ Received p s') (Grounded o) := by
  simp only [Request.ask, ends_bind, ends_get]
  exact (send_known hs _).mono
    (fun _ _ h => (await_reads h _ _ _).mono (fun _ _ h => h.2) fun _ _ h => h) fun _ _ h => h

theorem conclude_grounded (r : Request) (hkind : p.kind ∈ r.replies) (hp : Received p s) :
    Ends s (r.conclude p) (fun _ _ => True) (Grounded o) := by
  unfold Request.conclude
  split
  case h_6 l target =>
    simp only [moveTo, ends_bind, ends_modify]
    exact followRedirects_grounded target _
  case h_7 l =>
    simp only [moveTo, ends_bind, ends_modify, ends_closeChannel]
    exact .inr trivial
  case h_10 => exact grounded_rejection (r.replies_subset hkind) hp
  all_goals exact trivial

theorem perform_grounded (r : Request) (hs : Known o s) :
    Ends s r.perform (fun _ _ => True) (Grounded o) := by
  by_cases hr : r.Tracked s
  · exact ends_perform_of_tracked hr fun _ => trivial
  · exact ends_perform hr ((ask_reads hs r).mono (fun _ _ h => conclude_grounded r h.1 h.2)
      fun _ _ h => h)

/-- Who waits for publications reads nothing else. -/
theorem nextPublication_grounded (budget : Nat) (hs : Known o s) :
    Ends s (nextPublication budget) (fun _ _ => True) (Grounded o) := by
  rw [nextPublication, ends_bind]
  refine (next?_reads hs [.publish] budget).mono (fun a s' h => ?_) fun _ _ h => h
  split
  · exact trivial
  · next p hpublish =>
    have hkind : p.kind = .publish := List.mem_singleton.1 (h.2 p rfl).1
    cases p with
    | publish q => exact absurd rfl (hpublish q)
    | _ => cases hkind
  · exact trivial

/-! ## Operations -/

/-- What an action keeps, it keeps also when more is known of how it fails. -/
theorem Keeps.and_error {P : Session W → Prop} {E E' : SessionError → Session W → Prop}
    {x : Action W α} (H : Keeps P E x) (h : ∀ s, P s → Ends s x (fun _ _ => True) E') :
    Keeps P E' x := fun s hs =>
  ((H s hs).and (h s hs)).mono (fun _ _ h => h.1) fun _ _ h => h.2

/-- Operations keep a session consistent, and fail for no other reason than what came in. -/
theorem grounded_keeps (o : Session W) :
    OperationKeeps (fun s => Consistent s ∧ Led o s) (Grounded o) where
  connect address := ((consistent_keeps.and (led_keeps o)).connect address).and_error
    fun _ hs => connect_grounded hs.2 address
  disconnect := (consistent_keeps.and (led_keeps o)).disconnect.and_error fun _ _ =>
    ends_disconnect (Q := fun _ => True) trivial
      (ends_of_forall (fun _ _ => trivial) fun _ _ => trivial) fun _ _ => trivial
  perform r := ((consistent_keeps.and (led_keeps o)).standing.perform r).and_error
    fun _ hs => perform_grounded r (hs.1.known hs.2)
  nextPublication budget :=
    ((consistent_keeps.and (led_keeps o)).standing.nextPublication budget).and_error
      fun _ hs => nextPublication_grounded budget (hs.1.known hs.2)
  listen action id budget :=
    ((consistent_keeps.and (led_keeps o)).listen action id budget).and_error fun s hs =>
      (listen_failed action id budget s hs.2).mono (fun _ _ _ => trivial) fun _ _ h => h.grounded
  followRedirects target :=
    ((consistent_keeps.and (led_keeps o)).followRedirects target).and_error fun s _ =>
      followRedirects_grounded target s
  astray _ _ := ⟨.inr trivial, fun _ => .inr trivial⟩

/-- Over a federation no operation comes upon a payload that is of no use. -/
theorem federation_expected {s s' : Session Federation.wire} (hs : Consistent s) (o : Operation)
    (kind : PayloadKind) : exec o.perform s ≠ (.error (.unexpectedReply kind), s') := by
  intro h
  rcases ((grounded_keeps s).operation o s ⟨hs, .refl s⟩).error h with H | hnever
  · obtain ⟨failures, ⟨events, -, hcalls⟩, he⟩ := H
    obtain ⟨cause, hcause⟩ := Federation.calls_transport hcalls he
    cases hcause
  · exact hnever

/-- A wait for a reply takes the first that is expected and parks what comes in before
(`Awaited`). Over whatever wire and after whatever operations, an operation that fails for a payload
that was of no use, fails with the error of a call that it made of the wire; and one that was
refused, was refused by a payload that came in, unless such a call failed as if it was. -/
theorem await_selective :
    (∀ (s : Session W) (expected : List PayloadKind) (budget : Nat) (awaited : String),
      Awaited expected budget awaited s (exec (await expected budget awaited) s).1
        (exec (await expected budget awaited) s).2) ∧
    ∀ (id : String) (location : Option Location) (options : SessionOptions) (wire : W.State)
      (ops : List Operation) (o : Operation) (e : SessionError) (s : Session W),
      exec o.perform ((start id location options wire).after ops) = (.error e, s) →
      ∃ failures, Reached ((start id location options wire).after ops) failures s ∧
        (∀ kind, e = .unexpectedReply kind → e ∈ failures) ∧
        ∀ reason, e = .rejected reason →
          e ∈ failures ∨ ∃ n p, .received n p ∈ s.history ∧ p.reason? = some reason := by
  constructor
  · intro s expected budget awaited
    exact (ends_await_awaited s expected budget awaited).result
  · intro id location options wire ops o e s h
    have ht : Consistent ((start id location options wire).after ops) :=
      consistent_keeps.after (s := start id location options wire) (.inr ⟨rfl, rfl⟩) ops
    generalize (start id location options wire).after ops = t at h ht ⊢
    have hled : Led t s := ((led_keeps t).operations.operation o t (.refl t)).error h
    have H : Grounded t e s := ((grounded_keeps t).operation o t ⟨ht, .refl t⟩).error h
    rcases H with ⟨failures, H, he⟩ | H
    · exact ⟨failures, H, fun _ _ => he, fun _ _ => .inl he⟩
    · obtain ⟨failures, hled⟩ := hled
      refine ⟨failures, hled, ?_, ?_⟩
      · rintro kind rfl
        exact H.elim
      · rintro reason rfl
        obtain ⟨p, ⟨n, hp⟩, hreason⟩ := H
        exact .inr ⟨n, p, hp, hreason⟩

end Session

end Geocast
