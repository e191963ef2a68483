import Geocast.Proofs.Session.Handoff
import Geocast.Proofs.Session.Receiving
import Geocast.Session.Call

/-! # Runs of a session

An application uses a session by one operation after the other. `after` is the session that a list
of operations leads to, and `outcomes` what they returned. What every operation keeps, every run
keeps (`after_keeps`). The operations that wait for one reply to one request are the `Request`s. -/

namespace Geocast

/-- The reply that grants a subscription. -/
def Payload.isGrant : Payload → Bool
  | subAck .grantedQoS0 => true
  | _ => false

/-- What an application asks of the broker by one payload, and has answered by another. -/
inductive Request
  | subscribe (t : Topic) (g : Geofence)
  | unsubscribe (t : Topic)
  | updateLocation (l : Location)
  | publish (t : Topic) (g : Geofence) (content : String)

/-- Everything that an application asks of its session. -/
inductive Operation
  | connect (address : String)
  | disconnect
  | request (r : Request)
  | nextPublication (budget : Nat)
  | listen (action : FunctionAction) (id : RequestId) (budget : Nat)
  | call (r : CallRequest)

namespace Request

abbrev Answer : Request → Type
  | subscribe .. => SubscribeStatus
  | unsubscribe _ => UnsubscribeStatus
  | updateLocation _ => LocationStatus
  | publish .. => PublishOutcome

def perform {W : Wire} : (r : Request) → Action W r.Answer
  | subscribe t g => Session.subscribe t g
  | unsubscribe t => Session.unsubscribe t
  | updateLocation l => Session.updateLocation l
  | publish t g content => Session.publish t g content

/-- The kinds of replies that a request accepts. -/
def replies : Request → List PayloadKind
  | subscribe .. => [.subAck]
  | unsubscribe _ => [.unsubAck]
  | updateLocation _ => [.pingResp, .disconnect]
  | publish .. => [.pubAck, .disconnect]

theorem publish_notMem_replies (r : Request) : .publish ∉ r.replies := by
  cases r <;> simp [replies]

/-- What a reply means to a request that reads it, unless it refuses. -/
def meaning : (r : Request) → Payload → Option r.Answer
  | subscribe .., .subAck .grantedQoS0 => some .granted
  | unsubscribe _, .unsubAck .success => some .removed
  | unsubscribe _, .unsubAck .noSubscriptionExisted => some .notFound
  | updateLocation _, .pingResp .locationUpdated => some .updated
  | updateLocation _, .pingResp .notConnectedOrNoLocation => some .notConnected
  | updateLocation _, .disconnect .wrongBroker (some target) => some (.handedOff target)
  | publish .., .pubAck reason => some (.acked reason)
  | publish .., .disconnect .wrongBroker target => some (.redirected target)
  | _, _ => none

def payload : Request → Payload
  | subscribe t g => .subscribe t g
  | unsubscribe t => .unsubscribe t
  | updateLocation l => .pingReq (some l)
  | publish t g content => .publish ⟨t, g, content⟩

def awaited : Request → String
  | subscribe .. => "SUBACK"
  | unsubscribe _ => "UNSUBACK"
  | updateLocation _ => "PINGRESP"
  | publish .. => "PUBACK"

/-- Sends a request and waits for a reply to it. -/
def ask {W : Wire} (r : Request) : Action W Payload := do
  Session.send r.payload
  Session.await r.replies (← get).options.ackTimeout r.awaited

/-- What a request does with the reply that it reads. -/
def conclude {W : Wire} : (r : Request) → Payload → Action W r.Answer
  | subscribe t g, .subAck .grantedQoS0 => do
    modify fun s => { s with subscriptions := s.subscriptions.insert t g }
    return .granted
  | unsubscribe t, .unsubAck .success => do
    modify fun s => { s with subscriptions := s.subscriptions.erase t }
    return .removed
  | unsubscribe t, .unsubAck .noSubscriptionExisted => do
    modify fun s => { s with subscriptions := s.subscriptions.erase t }
    return .notFound
  | updateLocation l, .pingResp .locationUpdated => do
    Session.moveTo l
    modify fun s => { s with subscriptions := ∅ }
    return .updated
  | updateLocation l, .pingResp .notConnectedOrNoLocation => do
    Session.moveTo l
    return .notConnected
  | updateLocation l, .disconnect .wrongBroker (some target) => do
    Session.moveTo l
    Session.followRedirects target
    return .handedOff target
  | updateLocation l, .disconnect .wrongBroker none => do
    Session.moveTo l
    Session.closeChannel
    throw .noResponsibleBroker
  | publish .., .pubAck reason => return .acked reason
  | publish .., .disconnect .wrongBroker target => return .redirected target
  | _, p => throw (Session.rejection p)

/-- Whether an answer to a request says that the session moved to another broker. -/
def Moves : (r : Request) → r.Answer → Prop
  | updateLocation _, .handedOff _ => True
  | _, _ => False

/-- A request that need not be sent because its topic is tracked. -/
def Tracked {W : Wire} (s : Session W) : Request → Prop
  | subscribe t _ => s.subscriptions.contains t
  | _ => False

end Request

namespace Session

variable {W : Wire}

theorem subscribe_eq (t : Topic) (g : Geofence) : (subscribe t g : Action W SubscribeStatus) = (do
    let s ← get
    if s.subscriptions.contains t then return .alreadySubscribed
    send (.subscribe t g)
    let p ← await [.subAck] s.options.ackTimeout "SUBACK"
    (Request.subscribe t g).conclude p : Action W SubscribeStatus) := by
  unfold subscribe
  refine congrArg _ (funext fun s => ?_)
  by_cases h : s.subscriptions.contains t
  · exact (if_pos h).trans (if_pos h).symm
  · refine (if_neg h).trans (Eq.trans ?_ (if_neg h).symm)
    refine congrArg _ (funext fun _ => congrArg _ (funext fun p => ?_))
    cases p with
    | subAck reason => cases reason <;> rfl
    | _ => rfl

theorem ask_bind {α : Type} (r : Request) {f g : Payload → Action W α} (h : ∀ p, f p = g p) :
    (do
      send r.payload
      let p ← await r.replies (← get).options.ackTimeout r.awaited
      f p) = r.ask >>= g := by
  obtain rfl : f = g := funext h
  unfold Request.ask
  rw [bind_assoc]
  refine congrArg _ (funext fun _ => ?_)
  rw [bind_assoc]

theorem unsubscribe_eq (t : Topic) : (unsubscribe t : Action W UnsubscribeStatus) =
    (Request.unsubscribe t).ask >>= (Request.unsubscribe t).conclude := by
  refine ask_bind (.unsubscribe t) fun p => ?_
  cases p with
  | unsubAck reason => cases reason <;> rfl
  | _ => rfl

theorem updateLocation_eq (l : Location) : (updateLocation l : Action W LocationStatus) =
    (Request.updateLocation l).ask >>= (Request.updateLocation l).conclude := by
  refine ask_bind (.updateLocation l) fun p => ?_
  cases p with
  | pingResp reason => cases reason <;> rfl
  | disconnect reason target => cases reason <;> cases target <;> rfl
  | _ => rfl

theorem publish_eq (t : Topic) (g : Geofence) (content : String) :
    (publish t g content : Action W PublishOutcome) =
      (Request.publish t g content).ask >>= (Request.publish t g content).conclude := by
  refine ask_bind (.publish t g content) fun p => ?_
  cases p with
  | disconnect reason target => cases reason <;> rfl
  | _ => rfl

/-- A request that is sent asks, and concludes from the reply. -/
theorem ends_perform {r : Request} {s : Session W} (h : ¬ r.Tracked s)
    {Q : r.Answer → Session W → Prop} {E : SessionError → Session W → Prop}
    (H : Ends s r.ask (fun p s' => Ends s' (r.conclude p) Q E) E) : Ends s r.perform Q E := by
  cases r with
  | subscribe t g =>
    show Ends s (subscribe t g) Q E
    have hopt : Ends s (send (.subscribe t g)) (fun _ s' => s'.options = s.options)
        fun _ _ => True :=
      ends_send (fun _ => trivial) (fun _ _ _ _ => rfl) fun _ _ _ _ _ => trivial
    simp only [Request.ask, ends_bind, ends_get] at H
    have h : ¬ s.subscriptions.contains t := h
    rw [subscribe_eq, ends_bind, ends_get, if_neg h, ends_bind]
    refine (H.and hopt).mono (fun _ s' h => ?_) fun _ _ h => h.1
    obtain ⟨H, ho⟩ := h
    rw [← ho]
    exact (ends_bind ..).2 H
  | unsubscribe t =>
    show Ends s (unsubscribe t) Q E
    rw [unsubscribe_eq]
    exact (ends_bind ..).2 H
  | updateLocation l =>
    show Ends s (updateLocation l) Q E
    rw [updateLocation_eq]
    exact (ends_bind ..).2 H
  | publish t g content =>
    show Ends s (publish t g content) Q E
    rw [publish_eq]
    exact (ends_bind ..).2 H

theorem ends_perform_of_tracked {r : Request} {s : Session W} (h : r.Tracked s)
    {Q : r.Answer → Session W → Prop} {E : SessionError → Session W → Prop} (hQ : ∀ a, Q a s) :
    Ends s r.perform Q E := by
  cases r with
  | subscribe t g =>
    show Ends s (subscribe t g) Q E
    have h : s.subscriptions.contains t := h
    rw [subscribe_eq, ends_bind, ends_get, if_pos h]
    exact hQ _
  | _ => exact h.elim

/-- A subscription that is not tracked is asked for, and tracked if a grant is read. -/
theorem ends_subscribe {s : Session W} {t : Topic} {g : Geofence}
    {Q : SubscribeStatus → Session W → Prop} {E : SessionError → Session W → Prop}
    (htracked : s.subscriptions.contains t → Q .alreadySubscribed s)
    (hasked : ¬ s.subscriptions.contains t → Ends s (Request.subscribe t g).ask
      (fun p s' => (p.isGrant → Q .granted { s' with
        subscriptions := s'.subscriptions.insert t g }) ∧ (¬ p.isGrant → E (rejection p) s')) E) :
    Ends s (subscribe t g) Q E := by
  by_cases h : s.subscriptions.contains t
  · rw [subscribe_eq, ends_bind, ends_get, if_pos h]
    exact htracked h
  · refine ends_perform (r := .subscribe t g) h ((hasked h).mono (fun p s' H => ?_) fun _ _ h => h)
    obtain ⟨hgrant, hrefused⟩ := H
    cases p with
    | subAck reason =>
      cases reason with
      | grantedQoS0 => exact hgrant rfl
      | _ => exact hrefused (by simp [Payload.isGrant])
    | _ => exact hrefused (by simp [Payload.isGrant])

theorem rejection_ne_timeout (p : Payload) (awaited : String) : rejection p ≠ .timeout awaited := by
  unfold rejection
  split <;> exact nofun

/-- A request returns what the reply means. Unless it moves the session, it leaves the channel
alone, and it never takes a reply for a timeout. -/
theorem conclude_means (r : Request) (p : Payload) (s : Session W) : Ends s (r.conclude p)
    (fun a s' => r.meaning p = some a ∧
      (¬ r.Moves a → s'.link = s.link ∧ s'.inbox = s.inbox ∧ s'.wire = s.wire))
    fun e _ => ∀ awaited, e ≠ .timeout awaited := by
  unfold Request.conclude
  split
  case h_6 =>
    simp only [moveTo, ends_bind, ends_modify, ends_followRedirects]
    refine (hopUntilAccepted_error _ _ _ _).mono (fun _ s' _ => ⟨rfl, fun h => absurd trivial h⟩) ?_
    rintro e s' (rfl | ⟨_, _, rfl⟩) awaited h <;> cases h
  case h_7 =>
    simp only [moveTo, ends_bind, ends_modify, ends_closeChannel]
    intro awaited h
    cases h
  case h_10 => exact rejection_ne_timeout _
  all_goals exact ⟨rfl, fun _ => ⟨rfl, rfl, rfl⟩⟩

end Session

namespace Operation

abbrev Result : Operation → Type
  | connect _ | disconnect => Unit
  | request r => r.Answer
  | nextPublication _ => Option Publication
  | listen .. | call _ => Option FunctionMessage

def perform {W : Wire} : (o : Operation) → Action W o.Result
  | connect address => Session.connect address
  | disconnect => Session.disconnect
  | request r => r.perform
  | nextPublication budget => Session.nextPublication budget
  | listen action id budget => Session.listen action id budget
  | call r => Session.call r

end Operation

namespace Session

variable {W : Wire}

/-- The session after operations carried out one after another. -/
def after (s : Session W) : List Operation → Session W
  | [] => s
  | o :: os => after (exec o.perform s).2 os

/-- The operations of a run, each with what it returned. -/
def outcomes (s : Session W) :
    List Operation → List ((o : Operation) × Except SessionError o.Result)
  | [] => []
  | o :: os => ⟨o, (exec o.perform s).1⟩ :: outcomes (exec o.perform s).2 os

theorem after_keeps {P : Session W → Prop}
    {Q : (o : Operation) × Except SessionError o.Result → Prop}
    (hstep : ∀ s o, P s → Q ⟨o, (exec o.perform s).1⟩ → P (exec o.perform s).2)
    {s : Session W} {os : List Operation} (hs : P s) (hos : ∀ x ∈ s.outcomes os, Q x) :
    P (s.after os) := by
  induction os generalizing s with
  | nil => exact hs
  | cons o os ih =>
    obtain ⟨ho, hos⟩ := List.forall_mem_cons.1 hos
    exact ih (hstep s o hs ho) hos

end Session

end Geocast
