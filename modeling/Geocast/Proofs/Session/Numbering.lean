import Geocast.Proofs.Session.Operations
import Geocast.Proofs.Session.Rollback

/-! # Every session is numbered

The number of an open channel is below that of the next one to be opened. A chain of hops leaves a
channel that it opened itself, or the one where it began, so every operation keeps this, whether it
succeeds or fails (`numbered_after`). -/

namespace Geocast

namespace Session

variable {W : Wire} {s s' : Session W}

theorem numbered_of_closed {s : Session W} (h : s.link = none) : s.Numbered := fun l hl => by
  rw [h] at hl
  exact nomatch hl

theorem followRedirects_numbered (target : BrokerInfo) :
    Keeps (W := W) Numbered (fun _ => Numbered) (followRedirects target) := fun s hs =>
  (followRedirects_cases target s).mono (fun _ _ h => h.numbered) fun _ _ h => h.numbered hs

theorem ask_traffic {n : Nat} (hn : s.Uses n) (r : Request) :
    Ends s r.ask (fun _ s' => Traffic n s s') fun _ s' => Traffic n s s' := by
  simp only [Request.ask, ends_bind, ends_get]
  refine (send_traffic hn _).mono (fun _ s₁ h => ?_) fun _ _ h => h
  exact (await_traffic (h.uses hn) _ _ _).mono (fun _ _ h' => h.trans h') fun _ _ h' => h.trans h'

theorem exists_uses (s : Session W) : ∃ n, s.Uses n := by
  cases hl : s.link with
  | none => exact ⟨0, fun l h => by rw [hl] at h; exact nomatch h⟩
  | some l => exact ⟨l.number, fun l' h => by rw [hl] at h; cases h; rfl⟩

theorem listen_traffic {n : Nat} (hn : s.Uses n) (action : FunctionAction) (id : RequestId)
    (budget : Nat) : Ends s (listen action id budget) (fun _ s' => Traffic n s s')
      fun _ s' => Traffic n s s' := by
  have H (ps : List Publication) :
      Traffic n s { s with inbox := { s.inbox with publications := ps } } :=
    .silent n s s.wire { s.inbox with publications := ps }
  exact ends_listen (fun ps _ _ => H ps) fun ps _ => (receive_traffic ((H ps).uses hn) _ _).mono
    (fun _ _ h => (H ps).trans h) fun _ _ h => (H ps).trans h

/-- Sending and waiting keep what traffic on the channel in use keeps. -/
theorem PartsKeep.of_traffic {P : Session W → Prop}
    (traffic : ∀ s, P s → ∃ n, s.Uses n ∧ ∀ s', Traffic n s s' → P s')
    (connect : ∀ address, Keeps P (fun _ => P) (Session.connect address))
    (followRedirects : ∀ target, Keeps P (fun _ => P) (Session.followRedirects target))
    (closed : ∀ s, P s → P s.closed)
    (noted : ∀ s, P s → ∀ location subscriptions visited, P { s with
      location := location, subscriptions := subscriptions, visited := visited }) :
    PartsKeep P where
  connect := connect
  followRedirects := followRedirects
  send p := fun s hs => by
    obtain ⟨n, hn, H⟩ := traffic s hs
    exact (send_traffic hn p).mono (fun _ => H) fun _ => H
  next? expected budget := fun s hs => by
    obtain ⟨n, hn, H⟩ := traffic s hs
    exact (next?_traffic hn expected budget).mono (fun _ => H) fun _ => H
  listen action id budget := fun s hs => by
    obtain ⟨n, hn, H⟩ := traffic s hs
    exact (listen_traffic hn action id budget).mono (fun _ => H) fun _ => H
  closed := closed
  noted := noted

/-- Connecting establishes what traffic on the new channel does and following redirects keeps. -/
theorem ends_connect_of_traffic {address : String} {Q : Session W → Prop}
    {E : SessionError → Session W → Prop}
    (traffic : ∀ c w s₁, Traffic s.closed.opened { s.closed with
      wire := w, visited := [], subscriptions := ∅, address := address
      link := some ⟨c, s.closed.opened, address⟩
      history := .opened s.closed.opened address s.closed.id :: s.closed.history } s₁ → Q s₁)
    (followRedirects : ∀ target s₁, Q s₁ →
      Ends s₁ (followRedirects target) (fun _ => Q) fun e s₂ => E e s₂.closed)
    (closed : ∀ e s₁, Q s₁ → E e s₁.closed)
    (refused : ∀ e w, E e { s.closed with
      wire := w, visited := [], subscriptions := ∅, address := address
      history := .refused address s.closed.id :: s.closed.history }) :
    Ends s (connect address) (fun _ => Q) E := by
  simp only [connect, ends_bind, ends_closeChannel, ends_modify, ends_tryCatch, ends_throw]
  refine ends_dial (fun c w _ => ?_) fun e w _ => refused e w
  refine (register_traffic (uses_of_link (by rfl))).mono (fun a s₁ h => ?_) fun e s₁ h => ?_
  · cases a with
    | accepted => exact traffic c w s₁ h
    | redirected target => exact followRedirects target s₁ (traffic c w s₁ h)
  · exact closed e s₁ (traffic c w s₁ h)

/-- Whatever session there was before, connecting leaves a numbered one. -/
theorem connect_numbered (address : String) (s : Session W) :
    Ends s (connect address) (fun _ s' => s'.Numbered) fun _ s' => s'.Numbered := by
  refine ends_connect_of_traffic (fun c w s₁ h => h.numbered fun l hl => ?_)
    (fun target s₁ hs₁ => (followRedirects_numbered target s₁ hs₁).mono (fun _ _ h => h)
      fun _ s₂ _ => numbered_of_closed (closed_link s₂))
    (fun _ s₁ _ => numbered_of_closed (closed_link s₁))
    fun _ _ => numbered_of_closed (closed_link s)
  cases hl
  exact Nat.lt_succ_self _

theorem numbered_keeps : PartsKeep (W := W) Numbered :=
  .of_traffic (fun s hs => s.exists_uses.imp fun _ hn => ⟨hn, fun _ H => H.numbered hs⟩)
    (fun address s _ => connect_numbered address s)
    followRedirects_numbered (fun s _ => numbered_of_closed (closed_link s)) fun _ hs _ _ _ => hs

/-- Every session that operations lead to is numbered, if the first one is. -/
theorem numbered_after (hs : s.Numbered) (ops : List Operation) : (s.after ops).Numbered :=
  numbered_keeps.after hs ops

end Session

end Geocast
