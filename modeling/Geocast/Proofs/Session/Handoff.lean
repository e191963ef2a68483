import Geocast.Proofs.Session.Exec
import Geocast.Session.Handoff

/-! # Handoffs as actions

Rules for the parts of a handoff, on every wire. -/

namespace Geocast

namespace Session

variable {W : Wire} {α : Type} (s : Session W) (E : SessionError → Session W → Prop)

/-- The session after its channel was closed. -/
def closed (s : Session W) : Session W :=
  match s.link with
  | some l => { s with
      link := none, inbox := .empty, wire := W.close l.channel s.wire
      history := .closed l.number l.address :: s.history }
  | none => { s with link := none, inbox := .empty }

@[simp] theorem closed_link : s.closed.link = none := by
  unfold closed
  split <;> rfl

@[simp] theorem closed_inbox : s.closed.inbox = .empty := by
  unfold closed
  split <;> rfl

@[simp] theorem closed_id : s.closed.id = s.id := by
  unfold closed
  split <;> rfl

@[simp] theorem closed_location : s.closed.location = s.location := by
  unfold closed
  split <;> rfl

@[simp] theorem closed_options : s.closed.options = s.options := by
  unfold closed
  split <;> rfl

@[simp] theorem closed_subscriptions : s.closed.subscriptions = s.subscriptions := by
  unfold closed
  split <;> rfl

theorem closed_of_unlinked {s : Session W} (h : s.link = none) :
    s.closed = { s with link := none, inbox := .empty } := by
  rw [closed, h]

theorem history_closed : s.history <:+ s.closed.history := by
  unfold closed
  split
  · exact List.suffix_cons _ _
  · exact List.suffix_rfl

@[simp] theorem ends_closeChannel (Q : Unit → Session W → Prop) :
    Ends s closeChannel Q E ↔ Q () s.closed := by
  unfold closeChannel closed
  rw [ends_bind, ends_get]
  cases s.link <;> rfl

@[simp] theorem ends_inHandoff (target : BrokerInfo) (x : Action W α) (Q : α → Session W → Prop) :
    Ends s (inHandoff target x) Q E ↔
      Ends s x Q fun e s' => E (.handoffFailed target e.message) s' := by
  simp only [inHandoff, ends_tryCatch, ends_throw]

/-- What asking to be registered keeps, registering keeps. -/
theorem registerRetrying_keeps {P : Session W → Prop} {E : SessionError → Session W → Prop}
    (h : Keeps P E askToRegister) (hE : ∀ e s, P s → E e s) (retries : Nat) :
    Keeps P E (registerRetrying retries) := by
  have hend (r : Except SessionError Registration) : Keeps P E (ofOutcome r) := fun s hs =>
    ends_ofOutcome_of_forall s r (fun _ => hs) fun e => hE e s hs
  induction retries with
  | zero => exact .bind h fun p => hend _
  | succ retries ih =>
    refine .bind h fun p => ?_
    split
    · exact ih
    · exact hend _

/-- What each hop keeps, a chain of hops keeps. -/
theorem hopUntilAccepted_keeps {P : Session W → Prop} {E : SessionError → Session W → Prop}
    {limit : Nat} (h : ∀ target, Keeps P E (handoff target))
    (hE : ∀ s, P s → E (.tooManyRedirects limit) s) (hops : Nat) (target : BrokerInfo) :
    Keeps P E (hopUntilAccepted limit hops target) := by
  induction hops generalizing target with
  | zero => exact .throw hE
  | succ hops ih =>
    refine .bind (h target) fun a => ?_
    cases a with
    | accepted => exact .pure _
    | redirected next => exact ih next

theorem ends_dial {s : Session W} {E : SessionError → Session W → Prop} {address : String}
    {Q : Link W → Session W → Prop}
    (hok : ∀ c w, W.dial address s.id s.wire = (.ok c, w) → Q ⟨c, s.opened, address⟩
      { s with wire := w, history := .opened s.opened address s.id :: s.history })
    (herror : ∀ e w, W.dial address s.id s.wire = (.error e, w) → E e
      { s with wire := w, history := .refused address s.id :: s.history }) :
    Ends s (dial address) Q E := by
  unfold dial
  rw [ends_bind, ends_get]
  split
  · next e w h => exact herror e w h
  · next c w h => exact hok c w h

/-- An id that a handoff makes is longer than the one it is made from. -/
theorem length_minted (time : Nat) (id : String) :
    id.length < (id ++ "-" ++ toString time).length := by
  have hdash : "-".length = 1 := rfl
  rw [String.length_append, String.length_append, hdash]
  omega

/-- The session that leaves its broker for another. -/
def left (s : Session W) (target : BrokerInfo) : Session W :=
  if target.address ∈ s.address :: s.visited then
    { s with id := s.id ++ "-" ++ toString (W.calendar s.wire), visited := [] }
  else { s with visited := s.address :: s.visited }

@[simp] theorem left_link (target : BrokerInfo) : (s.left target).link = s.link := by
  unfold left
  split <;> rfl

@[simp] theorem left_location (target : BrokerInfo) : (s.left target).location = s.location := by
  unfold left
  split <;> rfl

@[simp] theorem left_history (target : BrokerInfo) : (s.left target).history = s.history := by
  unfold left
  split <;> rfl

@[simp] theorem left_wire (target : BrokerInfo) : (s.left target).wire = s.wire := by
  unfold left
  split <;> rfl

@[simp] theorem ends_leave (Q : Unit → Session W → Prop) (target : BrokerInfo) :
    Ends s (leave target) Q E ↔ Q () (s.left target) := .rfl

@[simp] theorem ends_restore (Q : Unit → Session W → Prop) (origin : Session W) :
    Ends s (restore origin) Q E ↔ Q () { s with
      link := origin.link, address := origin.address, id := origin.id, visited := origin.visited
      inbox := origin.inbox } := .rfl

/-- The session `s` after it moved away from the session `origin`, whose channel is closed. -/
def movedFrom (s origin : Session W) : Session W :=
  match origin.link with
  | some l => { s with
      subscriptions := ∅, wire := W.close l.channel s.wire
      history := .closed l.number l.address :: s.history }
  | none => { s with subscriptions := ∅ }

@[simp] theorem movedFrom_link (origin : Session W) : (s.movedFrom origin).link = s.link := by
  unfold movedFrom
  split <;> rfl

@[simp] theorem movedFrom_subscriptions (origin : Session W) :
    (s.movedFrom origin).subscriptions = ∅ := by
  unfold movedFrom
  split <;> rfl

/-- A chain of redirects either moves the session or puts it back. -/
theorem ends_followRedirects (Q : Unit → Session W → Prop) (target : BrokerInfo) :
    Ends s (followRedirects target) Q E ↔
      Ends { s with link := none, inbox := .empty }
        (hopUntilAccepted s.options.maxHandoffHops s.options.maxHandoffHops target)
        (fun _ s' => Q () (s'.movedFrom s))
        fun e s' => E e { s'.closed with
          link := s.link, address := s.address, id := s.id, visited := s.visited
          inbox := s.inbox } := by
  simp only [followRedirects, ends_bind, ends_get, ends_set, ends_tryCatch, ends_closeChannel,
    ends_restore, ends_throw]
  unfold movedFrom
  cases s.link <;> rfl

/-- A session that moves tracks nothing any more. -/
theorem followRedirects_untracked (target : BrokerInfo) :
    Ends s (followRedirects target) (fun _ s' => s'.subscriptions = ∅) fun _ _ => True := by
  rw [ends_followRedirects]
  exact ends_of_forall (fun _ s' => movedFrom_subscriptions s' s) fun _ _ => trivial

/-- The error of a chain of redirects says that a broker failed or that there were too many. -/
theorem hopUntilAccepted_error (limit hops : Nat) (target : BrokerInfo) (s : Session W) :
    Ends s (hopUntilAccepted limit hops target) (fun _ _ => True) fun e _ =>
      e = .tooManyRedirects limit ∨ ∃ t cause, e = .handoffFailed t cause := by
  induction hops generalizing target s with
  | zero => exact .inl rfl
  | succ hops ih =>
    simp only [hopUntilAccepted, handoff, ends_bind, ends_leave, ends_inHandoff, ends_closeChannel,
      ends_modify]
    refine ends_of_forall (fun l s' => ?_) fun e s' => .inr ⟨_, _, rfl⟩
    refine ends_of_forall (fun a s' => ?_) fun e s' => .inr ⟨_, _, rfl⟩
    cases a with
    | accepted => exact trivial
    | redirected next => exact ih next s'

end Session

end Geocast
