import Geocast.Proofs.Session.Consistency
import Geocast.Proofs.Session.Unlinked

/-! # Subscriptions without a channel

A session that disconnects, fails to connect or moves drops what it tracks. There is one more way to
lose the channel: a location update that no broker is responsible for closes it (`Strands`), but
what was tracked stays tracked. So a session without a channel tracks what it tracked when it was
stranded last, unless it connected or disconnected since (`tracked_unlinked_iff`), and subscribing
to that again succeeds although nobody is asked. -/

namespace Geocast

namespace Session

variable {W : Wire} {s : Session W} {o : Operation} {t : Topic}

/-- The operation reports a location, and the broker answers that no broker is responsible for it.
-/
def Strands (s : Session W) (o : Operation) : Prop :=
  ∃ l s', o = .request (.updateLocation l) ∧
    exec (Request.updateLocation l).ask s = (.ok (.disconnect .wrongBroker none), s')

/-- One operation of a run stranded the session while it tracked the topic, and all later ones
neither began nor ended a session. -/
def Stranded (s : Session W) (ops : List Operation) (t : Topic) : Prop :=
  ∃ before o behind, ops = before ++ o :: behind ∧ (s.after before).Strands o ∧
    (s.after before).subscriptions.contains t ∧ ∀ o ∈ behind, o.InSession

/-! ## One operation -/

theorem Strands.inSession (H : s.Strands o) : o.InSession := by
  obtain ⟨l, s', rfl, -⟩ := H
  trivial

/-- It loses the channel and goes on tracking. -/
theorem Strands.leaves (H : s.Strands o) : (exec o.perform s).2.link = none ∧
    (exec o.perform s).2.subscriptions = s.subscriptions := by
  obtain ⟨l, s₁, rfl, hask⟩ := H
  obtain ⟨n, hn⟩ := s.exists_uses
  have hsteady : Steady s s₁ := ((ask_traffic hn _).ok hask).toSteady
  show (exec (updateLocation l) s).2.link = none ∧
    (exec (updateLocation l) s).2.subscriptions = s.subscriptions
  rw [updateLocation_eq, exec_bind_of_ok hask]
  refine Ends.exec (P := fun s' => s'.link = none ∧ s'.subscriptions = s.subscriptions) ?_
  simp only [Request.conclude, moveTo, ends_bind, ends_modify, ends_closeChannel, ends_throw]
  exact ⟨closed_link _, (closed_subscriptions _).trans hsteady.subscriptions⟩

theorem followRedirects_connected (target : BrokerInfo) : Keeps (W := W)
    (fun s => s.isConnected) (fun _ s => s.isConnected) (followRedirects target) := by
  intro s hs
  refine ((followRedirects_joins target s).and (followRedirects_cases target s)).mono
    (fun _ s' h => ?_) fun _ s' h => ?_
  · obtain ⟨⟨l, hl, -⟩, -⟩ := h
    exact Option.isSome_iff_exists.2 ⟨l, hl.link⟩
  · exact h.2.isConnected hs

/-- A request that does not strand the session leaves it a channel. -/
theorem perform_connected {r : Request} (hs : s.isConnected) (h : ¬ s.Strands (.request r)) :
    Ends s r.perform (fun _ s' => s'.isConnected) fun _ s' => s'.isConnected := by
  by_cases hr : r.Tracked s
  · exact ends_perform_of_tracked hr fun _ => hs
  obtain ⟨n, hn⟩ := s.exists_uses
  refine ends_perform hr (((ask_traffic hn r).and (ends_exec r.ask s)).mono (fun p s₁ h₁ => ?_)
    fun _ s₁ h₁ => h₁.1.isConnected hs)
  obtain ⟨ht, hask⟩ := h₁
  have hs₁ := ht.isConnected hs
  unfold Request.conclude
  split
  case h_6 l target =>
    simp only [moveTo, ends_bind, ends_modify]
    exact followRedirects_connected target { s₁ with location := some l } hs₁
  case h_7 l => exact absurd ⟨l, s₁, rfl, hask⟩ h
  all_goals exact hs₁

theorem Keeps.connected {α : Type} {x : Action W α} (h : ∀ n s, s.Uses n →
    Ends s x (fun _ s' => Traffic n s s') fun _ s' => Traffic n s s') :
    Keeps (fun s => s.isConnected) (fun _ s => s.isConnected) x := by
  intro s hs
  obtain ⟨n, hn⟩ := s.exists_uses
  exact (h n s hn).mono (fun _ _ h => h.isConnected hs) fun _ _ h => h.isConnected hs

/-- A call reports no location. -/
theorem calls_connected : CallKeeps (W := W) (fun s => s.isConnected) fun _ s => s.isConnected where
  subscribe t g s hs := perform_connected (r := .subscribe t g) hs fun ⟨_, _, h, _⟩ => by cases h
  publish t g content s hs :=
    perform_connected (r := .publish t g content) hs fun ⟨_, _, h, _⟩ => by cases h
  followRedirects := followRedirects_connected
  listen action id budget := .connected fun _ _ hn => listen_traffic hn action id budget
  astray s hs := ⟨hs, fun _ => hs⟩

/-- What is done in a session leaves it a channel, unless it strands it. -/
theorem operation_connected (ho : o.InSession) (hs : s.isConnected) (h : ¬ s.Strands o) :
    (exec o.perform s).2.isConnected := by
  cases o with
  | connect | disconnect => exact ho.elim
  | request r => exact (perform_connected hs h).exec
  | nextPublication budget =>
    exact (nextPublication_keeps (fun budget => .connected fun _ _ hn => next?_traffic hn _ budget)
      (fun _ hs _ => hs) budget).exec hs
  | listen action id budget => exact (calls_connected.listen action id budget).exec hs
  | call r => exact (calls_connected.call r).exec hs

theorem connect_untracked (address : String) (s : Session W) : Ends s (connect address)
    (fun _ s' => s'.subscriptions = ∅) fun _ s' => s'.subscriptions = ∅ :=
  ends_connect_of_traffic (fun _ _ _ h => h.subscriptions)
    (fun target s₁ hs₁ => ((followRedirects_untracked s₁ target).and
      (followRedirects_cases target s₁)).mono (fun _ _ h => h.1)
      fun _ s₂ h => (closed_subscriptions s₂).trans (h.2.subscriptions.trans hs₁))
    (fun _ s₁ hs₁ => (closed_subscriptions s₁).trans hs₁) fun _ _ => rfl

/-- An operation that begins or ends a session leaves nothing tracked. -/
theorem operation_untracked (ho : ¬ o.InSession) : (exec o.perform s).2.subscriptions = ∅ := by
  cases o with
  | connect address => exact (connect_untracked address s).exec
  | disconnect =>
    exact Ends.exec (P := fun s' => s'.subscriptions = ∅) (ends_disconnect (Q := fun _ => True)
      trivial (ends_of_forall (fun _ _ => trivial) fun _ _ => trivial) fun _ _ => rfl)
  | _ => exact absurd trivial ho

/-- A topic is tracked without a channel if the operation stranded the session that tracked it, or
if it was so before and the operation neither began nor ended a session. -/
theorem tracked_unlinked_step (hs : s.Consistent) (o : Operation) (t : Topic) :
    (exec o.perform s).2.link = none ∧ (exec o.perform s).2.subscriptions.contains t ↔
      s.subscriptions.contains t ∧ (s.Strands o ∨ s.link = none ∧ o.InSession) := by
  by_cases ho : o.InSession
  · cases hl : s.link with
    | none =>
      have hi : s.inbox = .empty := by
        obtain ⟨l, hattached, -⟩ | ⟨-, hi⟩ := hs
        · cases hl.symm.trans hattached.link
        · exact hi
      rw [exec_unlinked hl hi ho]
      simp [hl, ho]
    | some l =>
      have hconnected : s.isConnected := Option.isSome_iff_exists.2 ⟨l, hl⟩
      by_cases hstrands : s.Strands o
      · rw [hstrands.leaves.1, hstrands.leaves.2]
        simp [hstrands]
      · have hkept := operation_connected ho hconnected hstrands
        rw [isConnected, Option.isSome_iff_ne_none] at hkept
        simp [hkept, hstrands]
  · have hstrands : ¬ s.Strands o := fun h => ho h.inSession
    rw [operation_untracked ho]
    simp [Table.contains, hstrands, ho]

/-! ## Runs -/

theorem stranded_cons {ops : List Operation} : s.Stranded (o :: ops) t ↔
    (s.Strands o ∧ s.subscriptions.contains t ∧ ∀ o ∈ ops, o.InSession) ∨
      (exec o.perform s).2.Stranded ops t := by
  constructor
  · rintro ⟨before, o', behind, h, hstrands, ht, hbehind⟩
    cases before with
    | nil =>
      cases h
      exact .inl ⟨hstrands, ht, hbehind⟩
    | cons o₀ before =>
      cases h
      exact .inr ⟨before, o', behind, rfl, hstrands, ht, hbehind⟩
  · rintro (⟨hstrands, ht, hops⟩ | ⟨before, o', behind, rfl, hstrands, ht, hbehind⟩)
    · exact ⟨[], o, ops, rfl, hstrands, ht, hops⟩
    · exact ⟨o :: before, o', behind, rfl, hstrands, ht, hbehind⟩

theorem consistent_step (hs : s.Consistent) (o : Operation) : (exec o.perform s).2.Consistent :=
  consistent_keeps.after hs [o]

/-- In a run from a consistent session on, a topic is tracked without a channel if the run stranded
the session that tracked it, or if it was so from the beginning. -/
theorem tracked_unlinked_run (hs : s.Consistent) (ops : List Operation) (t : Topic) :
    (s.after ops).link = none ∧ (s.after ops).subscriptions.contains t ↔
      s.Stranded ops t ∨
        s.link = none ∧ s.subscriptions.contains t ∧ ∀ o ∈ ops, o.InSession := by
  induction ops generalizing s with
  | nil => simp [after, Stranded]
  | cons o ops ih =>
    rw [after, ih (consistent_step hs o), stranded_cons, List.forall_mem_cons, ← and_assoc,
      tracked_unlinked_step hs]
    grind

/-- A session without a channel tracks nothing unless a location update stranded it. On every wire,
and whatever the operations of a run come to, it tracks a topic without a channel at the end if and
only if the session was stranded in the run while it tracked that topic, and all operations after
that neither began nor ended a session. Subscribing without a channel answers that the topic is
tracked already if it is, and else fails because the channel is closed; it changes nothing. -/
theorem tracked_unlinked_iff (id : String) (location : Option Location) (options : SessionOptions)
    (wire : W.State) (ops : List Operation) :
    let s := (start id location options wire).after ops
    (∀ t, s.link = none ∧ s.subscriptions.contains t ↔
      (start id location options wire).Stranded ops t) ∧
    (s.link = none → ∀ t g, exec (subscribe t g) s =
      (if s.subscriptions.contains t then .ok .alreadySubscribed else .error .channelClosed,
        s)) := by
  intro s
  refine ⟨fun t => ?_, fun hl t g => exec_subscribe_unlinked hl t g⟩
  have hs : (start id location options wire).Consistent := .inr ⟨rfl, rfl⟩
  have hnone : (start id location options wire).subscriptions.contains t = false := rfl
  rw [tracked_unlinked_run hs, hnone]
  simp

/-- A session that connects, subscribes, and reports a location that nobody is responsible for. -/
def voyage : List Operation :=
  [.connect "a:1", .request (.subscribe ⟨"x"⟩ .undefined), .request (.updateLocation ⟨0, 0⟩)]

/-- The session after the voyage, with a broker that grants the subscription. -/
def marooned : Session Script.wire :=
  (start "c" none ⟨100, 100, 100, 3⟩ (Script.start [] (Table.insert ∅
    "a:1" [.deliver [(0, .payload (.connAck .success))],
      .deliver [(0, .payload (.subAck .grantedQoS0))],
      .deliver [(0, .payload (.disconnect .wrongBroker none))]]) 0)).after voyage

/-- It is stranded, and to subscribe to the topic again succeeds without a channel. -/
theorem marooned_stranded : marooned.link = none ∧
    (∃ s : Session Script.wire, marooned = s.after voyage ∧ s.Stranded voyage ⟨"x"⟩) ∧
    exec (subscribe ⟨"x"⟩ .undefined) marooned = (.ok .alreadySubscribed, marooned) := by
  have hl : marooned.link = none := Option.isNone_iff_eq_none.1 (by decide +kernel)
  have htracked : marooned.subscriptions.contains ⟨"x"⟩ := by decide +kernel
  obtain ⟨hstranded, hsubscribe⟩ := tracked_unlinked_iff (W := Script.wire) "c" none _ _ voyage
  have h : exec (subscribe ⟨"x"⟩ .undefined) marooned = _ := hsubscribe hl _ _
  refine ⟨hl, ⟨_, rfl, (hstranded _).1 ⟨hl, htracked⟩⟩, h.trans ?_⟩
  exact congrArg (·, marooned) (if_pos htracked)

/-- A session without a channel that tracks a topic, and whose subscription to it does not fail. -/
theorem unlinked_subscribes :
    marooned.isConnected = false ∧ marooned.subscriptions.keys = [⟨"x"⟩] ∧
      (exec (subscribe ⟨"x"⟩ .undefined) marooned).1.toOption = some .alreadySubscribed := by
  decide +kernel

end Session

end Geocast
