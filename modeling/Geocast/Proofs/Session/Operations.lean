import Geocast.Proofs.Session.Call
import Geocast.Proofs.Session.Run

/-! # Operations keep what their parts keep

A call is put together from other operations, so what these keep, it keeps
(`OperationKeeps.operation`). These in turn connect, send, wait, follow redirects, close the channel
and take notes, and do nothing else to the session: what that keeps, whether it fails or not, every
operation keeps (`PartsKeep.operations`) and every run (`PartsKeep.after`). For operations that
neither connect nor disconnect, fewer parts count, and what a failure leaves may be another thing
(`StandingKeep`). -/

namespace Geocast

/-- Operations that neither begin nor end a session. -/
def Operation.InSession : Operation → Prop
  | connect _ | disconnect => False
  | _ => True

instance (o : Operation) : Decidable o.InSession := by
  cases o <;> unfold Operation.InSession <;> infer_instance

namespace Session

variable {W : Wire} {P : Session W → Prop} {E : SessionError → Session W → Prop}

/-- What every operation that is no call keeps, and following redirects. -/
structure OperationKeeps (P : Session W → Prop) (E : SessionError → Session W → Prop) : Prop where
  connect : ∀ address, Keeps P E (connect address)
  disconnect : Keeps P E disconnect
  perform : ∀ r : Request, Keeps P E r.perform
  nextPublication : ∀ budget, Keeps P E (nextPublication budget)
  listen : ∀ action id budget, Keeps P E (listen action id budget)
  followRedirects : ∀ target, Keeps P E (followRedirects target)
  astray : ∀ s, P s → E .noResponsibleBroker s ∧ ∀ limit, E (.tooManyRedirects limit) s

theorem OperationKeeps.operation (H : OperationKeeps P E) (o : Operation) :
    Keeps P E o.perform := by
  cases o with
  | connect address => exact H.connect address
  | disconnect => exact H.disconnect
  | request r => exact H.perform r
  | nextPublication budget => exact H.nextPublication budget
  | listen action id budget => exact H.listen action id budget
  | call r =>
    exact CallKeeps.call {
      subscribe := fun t g => H.perform (.subscribe t g)
      publish := fun t g content => H.perform (.publish t g content)
      followRedirects := H.followRedirects
      listen := H.listen
      astray := H.astray } r

/-- Whether the goodbye could be sent or not, the channel is closed and nothing is tracked. -/
theorem ends_disconnect {s : Session W} {Q : Session W → Prop} {R : Unit → Session W → Prop}
    (hs : Q s)
    (hsend : Ends s (send (.disconnect .normalDisconnection none)) (fun _ => Q) fun _ => Q)
    (hgone : ∀ s', Q s' → R () { s'.closed with subscriptions := ∅, visited := [] }) :
    Ends s disconnect R E := by
  unfold disconnect
  rw [ends_bind, ends_get]
  dsimp only
  split
  · simp only [ends_bind, ends_tryCatch, ends_pure, ends_closeChannel, ends_modify]
    exact hsend.mono (fun _ s' h => hgone s' h) fun _ s' h => hgone s' h
  · simp only [ends_bind, ends_closeChannel, ends_modify]
    exact hgone s hs

theorem nextPublication_keeps (h : ∀ budget, Keeps P E (next? [.publish] budget))
    (hE : ∀ s, P s → ∀ kind, E (.unexpectedReply kind) s) (budget : Nat) :
    Keeps P E (nextPublication budget) := by
  refine .bind (h budget) fun p => ?_
  split
  · exact .pure _
  · exact .throw fun s hs => hE s hs _
  · exact .pure _

/-! ## Operations in a session -/

/-- What the parts of operations keep that neither begin nor end a session. -/
structure StandingKeep (P : Session W → Prop) (E : SessionError → Session W → Prop) : Prop where
  followRedirects : ∀ target, Keeps P E (followRedirects target)
  send : ∀ p, Keeps P E (send p)
  next? : ∀ expected budget, Keeps P E (next? expected budget)
  listen : ∀ action id budget, Keeps P E (listen action id budget)
  closed : ∀ s, P s → P s.closed
  noted : ∀ s, P s → ∀ location subscriptions, P { s with
    location := location, subscriptions := subscriptions }
  failed : ∀ s, P s → ∀ e, E e s

namespace StandingKeep

variable (H : StandingKeep P E)
include H

theorem await (expected : List PayloadKind) (budget : Nat) (awaited : String) :
    Keeps P E (await expected budget awaited) := by
  refine .bind (H.next? expected budget) fun p => ?_
  split
  · exact .pure _
  · exact .throw fun s hs => H.failed s hs _

theorem ask (r : Request) : Keeps P E r.ask :=
  .bind (H.send _) fun _ => .bind .get fun _ => H.await _ _ _

theorem conclude (r : Request) (p : Payload) : Keeps P E (r.conclude p) := by
  intro s hs
  have hnoted := H.noted s hs
  unfold Request.conclude
  split
  case h_6 l target =>
    simp only [moveTo, ends_bind, ends_modify]
    exact H.followRedirects target _ (hnoted (some l) s.subscriptions)
  case h_7 l =>
    simp only [moveTo, ends_bind, ends_modify, ends_closeChannel]
    exact H.failed _ (H.closed _ (hnoted (some l) s.subscriptions)) _
  case h_1 t g => exact hnoted s.location (s.subscriptions.insert t g)
  case h_2 t | h_3 t => exact hnoted s.location (s.subscriptions.erase t)
  case h_4 l => exact hnoted (some l) ∅
  case h_5 l => exact hnoted (some l) s.subscriptions
  case h_8 | h_9 => exact hs
  case h_10 => exact H.failed s hs _

theorem perform (r : Request) : Keeps P E r.perform := by
  intro s hs
  by_cases hr : r.Tracked s
  · exact ends_perform_of_tracked hr fun _ => hs
  · exact ends_perform hr ((H.ask r s hs).mono (fun p s' h => H.conclude r p s' h) fun _ _ h => h)

theorem nextPublication (budget : Nat) : Keeps P E (nextPublication budget) :=
  nextPublication_keeps (H.next? _) (fun s hs _ => H.failed s hs _) budget

theorem calls : CallKeeps P E where
  subscribe t g := H.perform (.subscribe t g)
  publish t g content := H.perform (.publish t g content)
  followRedirects := H.followRedirects
  listen := H.listen
  astray s hs := ⟨H.failed s hs _, fun _ => H.failed s hs _⟩

theorem operation (o : Operation) (ho : o.InSession) : Keeps P E o.perform := by
  cases o with
  | connect | disconnect => exact ho.elim
  | request r => exact H.perform r
  | nextPublication budget => exact H.nextPublication budget
  | listen action id budget => exact H.listen action id budget
  | call r => exact H.calls.call r

end StandingKeep

/-! ## All operations -/

/-- What the parts of operations keep, whether they fail or not. -/
structure PartsKeep (P : Session W → Prop) : Prop where
  connect : ∀ address, Keeps P (fun _ => P) (connect address)
  followRedirects : ∀ target, Keeps P (fun _ => P) (followRedirects target)
  send : ∀ p, Keeps P (fun _ => P) (send p)
  next? : ∀ expected budget, Keeps P (fun _ => P) (next? expected budget)
  listen : ∀ action id budget, Keeps P (fun _ => P) (listen action id budget)
  closed : ∀ s, P s → P s.closed
  noted : ∀ s, P s → ∀ location subscriptions visited, P { s with
    location := location, subscriptions := subscriptions, visited := visited }

namespace PartsKeep

variable (H : PartsKeep P)
include H

theorem standing : StandingKeep P fun _ => P where
  followRedirects := H.followRedirects
  send := H.send
  next? := H.next?
  listen := H.listen
  closed := H.closed
  noted s hs location subscriptions := H.noted s hs location subscriptions s.visited
  failed _ hs _ := hs

theorem disconnect : Keeps P (fun _ => P) (disconnect (W := W)) := fun s hs =>
  ends_disconnect hs (H.send _ s hs) fun s' h => H.noted _ (H.closed s' h) s'.closed.location ∅ []

theorem operations : OperationKeeps P fun _ => P where
  connect := H.connect
  disconnect := H.disconnect
  perform := H.standing.perform
  nextPublication := H.standing.nextPublication
  listen := H.listen
  followRedirects := H.followRedirects
  astray _ hs := ⟨hs, fun _ => hs⟩

/-- What the parts keep apart from each other, they keep together. -/
theorem and {P' : Session W → Prop} (H' : PartsKeep P') : PartsKeep fun s => P s ∧ P' s where
  connect address := (H.connect address).and (H'.connect address)
  followRedirects target := (H.followRedirects target).and (H'.followRedirects target)
  send p := (H.send p).and (H'.send p)
  next? expected budget := (H.next? expected budget).and (H'.next? expected budget)
  listen action id budget := (H.listen action id budget).and (H'.listen action id budget)
  closed s hs := ⟨H.closed s hs.1, H'.closed s hs.2⟩
  noted s hs location subscriptions visited :=
    ⟨H.noted s hs.1 location subscriptions visited, H'.noted s hs.2 location subscriptions visited⟩

/-- What the parts of operations keep, every run keeps. -/
theorem after {s : Session W} (hs : P s) (ops : List Operation) : P (s.after ops) :=
  after_keeps (Q := fun _ => True) (fun _ o h _ => (H.operations.operation o).exec h) hs
    fun _ _ => trivial

end PartsKeep

end Session

end Geocast
