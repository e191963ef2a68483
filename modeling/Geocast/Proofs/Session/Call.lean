import Geocast.Proofs.Session.Exec
import Geocast.Session.Call

/-! # Calls do what their parts do

Calling a function subscribes, publishes, follows redirects and listens, and does nothing else to
the session. So what these keep, the call keeps (`CallKeeps.call`). If each publication of the call
may spend something and listening spends nothing, then the attempts of a call spend no more than all
the publications that they can make (`CallCosts.attempt`). -/

namespace Geocast

/-- The topics that a call is published to. -/
def CallRequest.topics (r : CallRequest) : List Topic :=
  functionTopic r.function .call ::
    if r.cloudRetry then [functionTopic r.function .nack] else []

/-- How often one attempt publishes the call at most, redirects apart. -/
def CallRequest.tries (r : CallRequest) : Nat :=
  max 1 r.ackAttempts + if r.cloudRetry then 1 else 0

namespace Session

variable {W : Wire} {α β : Type}

/-! ## Actions that spend -/

/-- An action that spends at most `c`: what holds of a session that has spent `k` turns into what
holds of one that has spent `k + c`. -/
def Costs (P : Nat → Session W → Prop) (E : Nat → SessionError → Session W → Prop) (c : Nat)
    (x : Action W α) : Prop :=
  ∀ k s, P k s → Ends s x (fun _ => P (k + c)) (E (k + c))

/-- Who has spent less may spend more. -/
structure Spending (P : Nat → Session W → Prop) (E : Nat → SessionError → Session W → Prop) :
    Prop where
  mono : ∀ {k k' s}, k ≤ k' → P k s → P k' s
  monoError : ∀ {k k' e s}, k ≤ k' → E k e s → E k' e s

namespace Spending

variable {P : Nat → Session W → Prop} {E : Nat → SessionError → Session W → Prop} {c d : Nat}

theorem pure (H : Spending P E) (c : Nat) (a : α) : Costs P E c (pure a) := fun _ _ h =>
  H.mono (Nat.le_add_right ..) h

theorem bind (H : Spending P E) {x : Action W α} {f : α → Action W β} (hx : Costs P E c x)
    (hf : ∀ a, Costs P E d (f a)) : Costs P E (c + d) (x >>= f) := by
  intro k s h
  rw [ends_bind]
  refine (hx k s h).mono (fun a s' h' => ?_) fun e s' h' => H.monoError (by omega) h'
  rw [← Nat.add_assoc]
  exact hf a (k + c) s' h'

/-- What comes before may cost nothing. -/
theorem bindFree (H : Spending P E) {x : Action W α} {f : α → Action W β} (hx : Costs P E 0 x)
    (hf : ∀ a, Costs P E d (f a)) : Costs P E d (x >>= f) := by
  rw [← Nat.zero_add d]
  exact H.bind hx hf

/-- What comes after may cost nothing. -/
theorem thenFree (H : Spending P E) {x : Action W α} {f : α → Action W β} (hx : Costs P E c x)
    (hf : ∀ a, Costs P E 0 (f a)) : Costs P E c (x >>= f) :=
  H.bind hx hf

theorem le (H : Spending P E) {x : Action W α} (hx : Costs P E c x) (h : c ≤ d) :
    Costs P E d x := fun k s hs =>
  (hx k s hs).mono (fun _ _ => H.mono (by omega)) fun _ _ => H.monoError (by omega)

end Spending

/-- What an action keeps, it keeps at any price. -/
theorem Keeps.costs {P : Session W → Prop} {E : SessionError → Session W → Prop}
    {x : Action W α} (h : Keeps P E x) (c : Nat) : Costs (fun _ => P) (fun _ => E) c x :=
  fun _ => h

/-! ## Attempts -/

/-- What publishing the call and listening for an answer spend. -/
structure CallCosts (r : CallRequest) (content : String) (P : Nat → Session W → Prop)
    (E : Nat → SessionError → Session W → Prop) (c : Nat) : Prop extends Spending P E where
  publishCall : ∀ t ∈ r.topics, Costs P E c (publishCall r content t)
  listen : ∀ action budget, Costs P E 0 (listen action r.request budget)

namespace CallCosts

variable {r : CallRequest} {content : String} {P : Nat → Session W → Prop}
  {E : Nat → SessionError → Session W → Prop} {c : Nat}

theorem awaitAck (H : CallCosts r content P E c) (budget : Nat) :
    Costs P E 0 (awaitAck r.request budget) := by
  refine H.bindFree (H.listen _ _) fun ack => ?_
  split
  · exact H.pure 0 _
  · refine H.bindFree (H.listen _ _) fun result => ?_
    split
    · exact H.pure 0 _
    · refine H.bindFree (H.listen _ _) fun nack => ?_
      split <;> exact H.pure 0 _

theorem solicit (H : CallCosts r content P E c) (ackTimeout : Nat) {t : Topic} (ht : t ∈ r.topics)
    (times : Nat) : Costs P E (times * c) (solicit r content ackTimeout t times) := by
  induction times with
  | zero => exact H.pure _ _
  | succ times ih =>
    rw [Nat.succ_mul, Nat.add_comm]
    refine H.bind (H.publishCall t ht) fun delivery => ?_
    split
    · exact H.pure _ _
    · exact H.pure _ _
    · refine H.bindFree (H.awaitAck _) fun answer => ?_
      split
      · exact H.pure _ _
      · exact H.pure _ _
      · exact H.pure _ _
      · exact ih

theorem solicitAnywhere (H : CallCosts r content P E c) (ackTimeout : Nat) :
    Costs P E (r.tries * c) (solicitAnywhere r content ackTimeout) := by
  rw [CallRequest.tries, Nat.add_mul]
  refine H.bind (H.solicit ackTimeout List.mem_cons_self _) fun outcome => ?_
  cases outcome with
  | unacknowledged =>
    dsimp only
    split
    · next hcloud =>
      refine H.solicit ackTimeout ?_ 1
      rw [CallRequest.topics, if_pos hcloud]
      exact List.mem_cons_of_mem _ List.mem_cons_self
    · exact H.pure _ _
  | _ => exact H.pure _ _

theorem attempt (H : CallCosts r content P E c) (ackTimeout resultTimeout times : Nat) :
    Costs P E (times * (r.tries * c)) (attempt r content ackTimeout resultTimeout times) := by
  induction times with
  | zero => exact H.pure _ _
  | succ times ih =>
    rw [Nat.succ_mul, Nat.add_comm]
    refine H.bind (H.solicitAnywhere ackTimeout) fun outcome => ?_
    split
    · exact H.pure _ _
    · exact H.pure _ _
    · exact ih
    · refine H.bindFree (H.listen _ _) fun result => ?_
      split
      · exact H.pure _ _
      · exact ih

end CallCosts

/-- What publishing the call and listening keep, the attempts keep. -/
theorem Keeps.attempt {r : CallRequest} {content : String} {P : Session W → Prop}
    {E : SessionError → Session W → Prop}
    (publishCall : ∀ t ∈ r.topics, Keeps P E (publishCall r content t))
    (listen : ∀ action budget, Keeps P E (listen action r.request budget))
    (ackTimeout resultTimeout times : Nat) :
    Keeps P E (attempt r content ackTimeout resultTimeout times) :=
  CallCosts.attempt {
    mono := fun _ h => h
    monoError := fun _ h => h
    publishCall := fun t ht => (publishCall t ht).costs 0
    listen := fun action budget => (listen action budget).costs 0 } ackTimeout resultTimeout times 0

/-! ## Calls -/

/-- What the parts of a call keep. -/
structure CallKeeps (P : Session W → Prop) (E : SessionError → Session W → Prop) : Prop where
  subscribe : ∀ t g, Keeps P E (subscribe t g)
  publish : ∀ t g content, Keeps P E (publish t g content)
  followRedirects : ∀ target, Keeps P E (followRedirects target)
  listen : ∀ action request budget, Keeps P E (listen action request budget)
  astray : ∀ s, P s → E .noResponsibleBroker s ∧ ∀ limit, E (.tooManyRedirects limit) s

/-- What publishing with redirects keeps, publishing the call keeps. -/
theorem Keeps.publishCall {P : Session W → Prop} {E : SessionError → Session W → Prop}
    {r : CallRequest} {content : String} {t : Topic}
    (h : ∀ limit times, Keeps P E (publishFollowing limit t r.pubFence content times)) :
    Keeps P E (publishCall r content t) := by
  refine .bind .get fun s => .bind (h _ _) fun reason => ?_
  split <;> exact .pure _

namespace CallKeeps

variable {P : Session W → Prop} {E : SessionError → Session W → Prop}

theorem subscribeAll (H : CallKeeps P E) (l : List (Topic × Geofence)) :
    Keeps P E (subscribeAll l) := by
  induction l with
  | nil => exact .pure ()
  | cons x l ih => exact .bind (H.subscribe x.1 x.2) fun _ => ih

theorem publishFollowing (H : CallKeeps P E) (limit : Nat) (t : Topic) (g : Geofence)
    (content : String) (times : Nat) : Keeps P E (publishFollowing limit t g content times) := by
  induction times with
  | zero => exact .throw fun s h => (H.astray s h).2 limit
  | succ times ih =>
    refine .bind (H.publish t g content) fun answer => ?_
    split
    · exact .pure _
    · exact .bind .get fun s => .bind (H.followRedirects _) fun _ =>
        .bind (H.subscribeAll _) fun _ => ih
    · exact .throw fun s h => (H.astray s h).1

theorem call (H : CallKeeps P E) (r : CallRequest) : Keeps P E (call r) :=
  .bind .get fun _ => .bind (H.subscribe _ _) fun _ => .bind (H.subscribe _ _) fun _ =>
    .bind .get fun _ => .attempt (fun _ _ => .publishCall fun _ _ => H.publishFollowing _ _ _ _ _)
      (fun _ _ => H.listen _ _ _) _ _ _

end CallKeeps

end Session

end Geocast
