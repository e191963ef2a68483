import Geocast.Proofs.Session.Operations

/-! # Sessions without a channel

Without a channel there is nobody to ask. A request that would have to be sent fails because the
channel is closed, and so does every call; only a subscription to a topic that is tracked is not
sent and succeeds (`exec_perform_unlinked`, `exec_call_unlinked`). Nothing that is done in such a
session changes it (`exec_unlinked`). -/

namespace Geocast

namespace Session

variable {W : Wire} {α β : Type} {s s' : Session W}

theorem exec_bind_of_error {x : Action W α} {e : SessionError} (h : exec x s = (.error e, s'))
    (f : α → Action W β) : exec (x >>= f) s = (.error e, s') := by
  have H : Ends s (x >>= f) (fun _ _ => False) fun e' s'' => (e', s'') = (e, s') := by
    rw [ends_bind]
    refine ends_iff.2 ⟨fun a s'' ha => ?_, fun e' s'' he => ?_⟩
    · cases h.symm.trans ha
    · cases h.symm.trans he
      rfl
  rcases hr : exec (x >>= f) s with ⟨e' | b, s''⟩
  · cases H.error hr
    rfl
  · exact (H.ok hr).elim

theorem exec_bind_of_ok {x : Action W α} {a : α} (h : exec x s = (.ok a, s'))
    (f : α → Action W β) : exec (x >>= f) s = exec (f a) s' := by
  have H : Ends s (x >>= f) (fun b s'' => exec (f a) s' = (.ok b, s''))
      fun e s'' => exec (f a) s' = (.error e, s'') := by
    rw [ends_bind]
    refine ends_iff.2 ⟨fun a' s₁ ha => ?_, fun e s₁ he => ?_⟩
    · cases h.symm.trans ha
      exact ends_exec (f a) s'
    · cases h.symm.trans he
  rcases hr : exec (x >>= f) s with ⟨e | b, s''⟩
  · exact (H.error hr).symm
  · exact (H.ok hr).symm

section
variable (hl : s.link = none)
include hl

theorem exec_send_unlinked (p : Payload) : exec (send p) s = (.error .channelClosed, s) := by
  unfold send
  rw [exec_get_bind, hl]
  rfl

theorem exec_receive_unlinked (judge : Payload → Verdict α) (budget : Nat) :
    exec (receive judge budget) s = (.error .channelClosed, s) := by
  unfold receive
  rw [exec_get_bind, hl]
  rfl

/-- A request that has to be sent fails. -/
theorem exec_perform_unlinked {r : Request} (hr : ¬ r.Tracked s) :
    exec r.perform s = (.error .channelClosed, s) := by
  have hask : exec (W := W) r.ask s = (.error .channelClosed, s) :=
    exec_bind_of_error (exec_send_unlinked hl r.payload) _
  cases r with
  | subscribe t g =>
    show exec (subscribe t g) s = _
    have hr : ¬ s.subscriptions.contains t := hr
    rw [subscribe_eq, exec_get_bind, if_neg hr]
    exact exec_bind_of_error (exec_send_unlinked hl _) _
  | unsubscribe t =>
    show exec (unsubscribe t) s = _
    rw [unsubscribe_eq]
    exact exec_bind_of_error hask _
  | updateLocation l =>
    show exec (updateLocation l) s = _
    rw [updateLocation_eq]
    exact exec_bind_of_error hask _
  | publish t g content =>
    show exec (publish t g content) s = _
    rw [publish_eq]
    exact exec_bind_of_error hask _

theorem exec_subscribe_unlinked (t : Topic) (g : Geofence) : exec (subscribe t g) s =
    (if s.subscriptions.contains t then .ok .alreadySubscribed else .error .channelClosed, s) := by
  split
  · next h =>
    rw [subscribe_eq, exec_get_bind, if_pos h]
    rfl
  · next h => exact exec_perform_unlinked hl (r := .subscribe t g) h

/-! ## Calls -/

theorem exec_publishCall_unlinked (r : CallRequest) (content : String) (t : Topic) :
    exec (publishCall r content t) s = (.error .channelClosed, s) := by
  have hpublish : exec (publish t r.pubFence content) s = (.error .channelClosed, s) :=
    exec_perform_unlinked hl (r := .publish t r.pubFence content) (fun h => h)
  exact exec_bind_of_error (exec_bind_of_error hpublish _) _

/-- An attempt publishes the call once at least, and fails there. -/
theorem exec_attempt_unlinked (r : CallRequest) (content : String)
    (ackTimeout resultTimeout times : Nat) :
    exec (attempt r content ackTimeout resultTimeout (times + 1)) s =
      (.error .channelClosed, s) := by
  obtain ⟨tries, htries⟩ : ∃ tries, max 1 r.ackAttempts = tries + 1 :=
    Nat.exists_eq_succ_of_ne_zero (by omega)
  have hsolicit : exec (solicit r content ackTimeout (functionTopic r.function .call)
      (max 1 r.ackAttempts)) s = (.error .channelClosed, s) := by
    rw [htries]
    exact exec_bind_of_error (exec_publishCall_unlinked hl ..) _
  exact exec_bind_of_error (exec_bind_of_error hsolicit _) _

theorem exec_call_unlinked (r : CallRequest) :
    exec (call r) s = (.error .channelClosed, s) := by
  unfold call
  rw [exec_get_bind]
  by_cases hresult : s.subscriptions.contains (functionTopic r.function .result)
  · rw [exec_bind_of_ok ((exec_subscribe_unlinked hl _ _).trans (by rw [if_pos hresult]))]
    by_cases hack : s.subscriptions.contains (functionTopic r.function .ack)
    · rw [exec_bind_of_ok ((exec_subscribe_unlinked hl _ _).trans (by rw [if_pos hack])),
        exec_get_bind]
      exact exec_attempt_unlinked hl ..
    · exact exec_bind_of_error ((exec_subscribe_unlinked hl _ _).trans (by rw [if_neg hack])) _
  · exact exec_bind_of_error ((exec_subscribe_unlinked hl _ _).trans (by rw [if_neg hresult])) _

/-! ## All that is done in a session -/

/-- Where nothing is parked either, nothing changes. -/
theorem exec_unlinked (hi : s.inbox = .empty) {o : Operation} (ho : o.InSession) :
    (exec o.perform s).2 = s := by
  cases o with
  | connect | disconnect => exact ho.elim
  | request r =>
    by_cases hr : r.Tracked s
    · exact Ends.exec (P := (· = s)) (ends_perform_of_tracked hr fun _ => rfl)
    · exact congrArg Prod.snd (exec_perform_unlinked hl hr)
  | nextPublication budget =>
    have hnext : exec (next? [.publish] budget) s = (.error .channelClosed, s) := by
      unfold next?
      rw [exec_get_bind, hi]
      exact exec_receive_unlinked hl _ _
    exact congrArg Prod.snd (exec_bind_of_error hnext _)
  | listen action id budget =>
    have hsame : { s with inbox := .empty } = s := by rw [← hi]
    have hlisten : exec (listen action id budget) s =
        exec (receive (listening action id) budget) { s with inbox := .empty } := by
      unfold listen
      rw [exec_get_bind, hi]
      rfl
    rw [hsame] at hlisten
    exact congrArg Prod.snd (hlisten.trans (exec_receive_unlinked hl _ _))
  | call r => exact congrArg Prod.snd (exec_call_unlinked hl r)

end

end Session

end Geocast
