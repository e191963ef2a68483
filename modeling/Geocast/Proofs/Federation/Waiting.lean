import Geocast.Proofs.Federation.Standing
import Geocast.Proofs.Session.Traffic

/-! # Waiting at a federation

A federation answers a request as soon as it is sent, so the reply lies ready when the wait for it
begins: a wait of any length reads it (`Reception.answered`). While no reply is on its way, all that
a wait can hear are publications (`Reception.idle`). -/

namespace Geocast

/-- Whether an event is a redirect that came in on the channel numbered `n`. -/
def WireEvent.sendsAway (n : Nat) : WireEvent → Bool
  | received m (.disconnect .wrongBroker _) => m = n
  | _ => false

theorem WireEvent.sendsAway_iff {n : Nat} {e : WireEvent} :
    e.sendsAway n ↔ ∃ target, e = .received n (.disconnect .wrongBroker target) := by
  unfold sendsAway
  split
  · simp
  · next hother =>
    refine ⟨nofun, ?_⟩
    rintro ⟨target, rfl⟩
    exact absurd rfl (hother n target)

namespace Inbox

variable {i i' : Inbox} {p : Payload} {expected : List PayloadKind}

theorem replies_park_publication (hp : p.kind = .publish) : (i.park p).replies = i.replies := by
  cases p with
  | publish => rfl
  | _ => cases hp

theorem take?_eq_none (h : i.replies = []) (hpublish : .publish ∉ expected) :
    i.take? expected = none :=
  take?_eq_none_iff.2 ⟨h ▸ List.forall_mem_nil _, fun hexpected => absurd hexpected hpublish⟩

theorem replies_take? (h : i.take? expected = some (p, i')) (hi : i.replies = []) :
    i'.replies = [] := by
  rcases take?_cases h with ⟨hfound, -⟩ | ⟨-, -, _, _, -, -, rfl⟩
  · rw [hi] at hfound
    exact nomatch hfound
  · exact hi

end Inbox

namespace Session

open Federation

variable {α : Type} {n : Nat} {s s' s'' : Session Federation.wire} {l : Link Federation.wire}
  {judge : Payload → Verdict α} {deadline : Nat} {res : Except SessionError (Option α)}

/-- What the federation has on record about the client where the session called last. -/
def record (s : Session Federation.wire) : Option ClientRecord :=
  Federation.record? s.wire s.address s.id

/-- The broker sent the client away on the channel numbered `n`. -/
def SentAway (s : Session Federation.wire) (n : Nat) : Prop :=
  ∃ target, .received n (.disconnect .wrongBroker target) ∈ s.history

theorem sentAway_iff_any : s.SentAway n ↔ s.history.any (·.sendsAway n) := by
  simp only [SentAway, List.any_eq_true, WireEvent.sendsAway_iff]
  constructor
  · rintro ⟨target, h⟩
    exact ⟨_, h, target, rfl⟩
  · rintro ⟨_, h, target, rfl⟩
    exact ⟨target, h⟩

instance (s : Session Federation.wire) (n : Nat) : Decidable (s.SentAway n) :=
  decidable_of_iff _ sentAway_iff_any.symm

/-- No reply is parked, and none is on its way on a channel. -/
structure Clear (s : Session Federation.wire) (l : Link Federation.wire) : Prop where
  parked : s.inbox.replies = []
  underWay : repliesTo l.channel.number s.wire.mail = []

/-- Between `s` and `s'` only payloads with the property `P` came in, on the channel numbered
`n`. -/
def Heard (n : Nat) (P : Payload → Prop) (s s' : Session Federation.wire) : Prop :=
  ∃ events, s'.history = events ++ s.history ∧ ∀ e ∈ events, ∃ p, e = .received n p ∧ P p

section
variable {P : Payload → Prop}

theorem Heard.refl (n : Nat) (P : Payload → Prop) (s : Session Federation.wire) : Heard n P s s :=
  ⟨[], rfl, List.forall_mem_nil _⟩

theorem Heard.trans (H : Heard n P s s') (H' : Heard n P s' s'') : Heard n P s s'' := by
  obtain ⟨events, h, he⟩ := H
  obtain ⟨events', h', he'⟩ := H'
  refine ⟨events' ++ events, by rw [h', h, List.append_assoc], fun e hm => ?_⟩
  rcases List.mem_append.1 hm with hm | hm
  · exact he' e hm
  · exact he e hm

theorem heard_got {p : Payload} (hp : P p) (w : Federation) (i : Inbox) :
    Heard n P s { s.got n p w with inbox := i } :=
  ⟨[.received n p], rfl, fun _ hm => ⟨p, List.mem_singleton.1 hm, hp⟩⟩

/-- Only a redirect that came in makes a difference to whether the client was sent away. -/
theorem Heard.sentAway (H : Heard n P s s') (hP : ∀ target, ¬ P (.disconnect .wrongBroker target))
    (m : Nat) : s'.SentAway m ↔ s.SentAway m := by
  obtain ⟨events, hhistory, he⟩ := H
  refine exists_congr fun target => ?_
  rw [hhistory, List.mem_append]
  refine ⟨fun h => h.resolve_left fun hm => ?_, .inr⟩
  obtain ⟨p, hp, hPp⟩ := he _ hm
  obtain ⟨-, rfl⟩ := WireEvent.received.inj hp
  exact hP target hPp

/-- Whether the client was sent away, after a wait that heard publications and the reply `r`. -/
theorem Heard.sentAway_iff {r : Payload} (H : Heard n (fun p => p.kind = .publish ∨ p = r) s s')
    (hr : .received n r ∈ s'.history) (m : Nat) : s'.SentAway m ↔
      s.SentAway m ∨ m = n ∧ ∃ target, r = .disconnect .wrongBroker target := by
  obtain ⟨events, hhistory, he⟩ := H
  constructor
  · rintro ⟨target, hm⟩
    rw [hhistory, List.mem_append] at hm
    rcases hm with hm | hm
    · obtain ⟨p, hp, hpublish | rfl⟩ := he _ hm
      · obtain ⟨-, rfl⟩ := WireEvent.received.inj hp
        exact nomatch hpublish
      · obtain ⟨rfl, rfl⟩ := WireEvent.received.inj hp
        exact .inr ⟨rfl, target, rfl⟩
    · exact .inl ⟨target, hm⟩
  · rintro (⟨target, hm⟩ | ⟨rfl, target, rfl⟩)
    · exact ⟨target, hhistory ▸ List.mem_append_right events hm⟩
    · exact ⟨target, hr⟩

end

/-- What a wait takes from the federation. -/
theorem Reception.drained (H : Reception judge deadline l s res s') :
    Drained l.channel.number s.wire s'.wire := by
  have hrecv {w w' : Federation} {budget : Nat} {r : Except SessionError (Option Payload)}
      (h : Federation.recv l.channel budget w = (r, w')) : Drained l.channel.number w w' := by
    have hd := recv_drained l.channel budget w
    rwa [h] at hd
  induction H with
  | spent => exact .refl _ _
  | failed _ h => exact hrecv h
  | silent _ h => exact hrecv h
  | accepted _ h => exact hrecv h
  | parked _ h _ _ ih => exact (hrecv h).trans ih
  | dropped _ h _ _ ih => exact (hrecv h).trans ih

/-! ## One payload -/

theorem recv_some {c : FederationChannel} {budget : Nat} {f w : Federation} {p : Payload}
    (h : Federation.recv c budget f = (.ok (some p), w)) :
    w.clock = f.clock ∧ repliesTo c.number f.mail =
      (if p.kind ≠ .publish then [p] else []) ++ repliesTo c.number w.mail := by
  unfold Federation.recv at h
  split at h
  · next m hm =>
    cases h
    refine ⟨rfl, (repliesTo_taken hm c.number).trans ?_⟩
    simp
  · exact nomatch h

theorem recv_none {c : FederationChannel} {budget : Nat} {f w : Federation}
    (h : Federation.recv c budget f = (.ok none, w)) :
    w.mail = f.mail ∧ repliesTo c.number f.mail = [] := by
  unfold Federation.recv at h
  split at h
  · exact nomatch h
  · next hm =>
    cases h
    refine ⟨rfl, repliesTo_eq_nil fun m hmem hnumber => ?_⟩
    exact absurd (List.find?_eq_none.1 hm m hmem) (by simp [isFor, hnumber])

theorem recv_ne_error {c : FederationChannel} {budget : Nat} {f w : Federation} {e : SessionError} :
    Federation.recv c budget f ≠ (.error e, w) := by
  unfold Federation.recv
  split <;> exact nofun

/-! ## Waits -/

/-- A wait while no reply is on its way hears publications only. -/
theorem Reception.idle (H : Reception judge deadline l s res s') (h : s.Clear l) :
    s'.Clear l ∧ Heard l.number (·.kind = .publish) s s' := by
  have hpublication {s : Session Federation.wire} {budget : Nat} {p : Payload} {w : Federation}
      (h : s.Clear l) (hr : Federation.recv l.channel budget s.wire = (.ok (some p), w)) :
      p.kind = .publish ∧ repliesTo l.channel.number w.mail = [] := by
    have hreplies := (recv_some hr).2
    rw [h.underWay, eq_comm, List.append_eq_nil_iff] at hreplies
    exact ⟨by simpa using hreplies.1, hreplies.2⟩
  induction H with
  | spent => exact ⟨h, .refl _ _ _⟩
  | failed _ hr => exact absurd hr recv_ne_error
  | silent _ hr =>
    obtain ⟨hmail, hnone⟩ := recv_none hr
    exact ⟨⟨h.parked, (congrArg _ hmail).trans hnone⟩, [], rfl, List.forall_mem_nil _⟩
  | accepted _ hr =>
    obtain ⟨hp, hw⟩ := hpublication h hr
    exact ⟨⟨h.parked, hw⟩, heard_got hp _ _⟩
  | parked _ hr _ _ ih =>
    obtain ⟨hp, hw⟩ := hpublication h hr
    obtain ⟨hclear, hheard⟩ := ih ⟨(Inbox.replies_park_publication hp).trans h.parked, hw⟩
    exact ⟨hclear, (heard_got hp _ _).trans hheard⟩
  | dropped _ hr _ _ ih =>
    obtain ⟨hp, hw⟩ := hpublication h hr
    obtain ⟨hclear, hheard⟩ := ih ⟨h.parked, hw⟩
    exact ⟨hclear, (heard_got hp _ _).trans hheard⟩

/-- A wait for the one reply that is on its way reads it, if it lasts at all. -/
theorem Reception.answered {expected : List PayloadKind} {r : Payload}
    {res : Except SessionError (Option Payload)}
    (H : Reception (expecting expected) deadline l s res s') (htime : s.wire.clock < deadline)
    (hparked : s.inbox.replies = []) (hr : repliesTo l.channel.number s.wire.mail = [r])
    (hexpected : r.kind ∈ expected) (hpublish : .publish ∉ expected) :
    res = .ok (some r) ∧ s'.Clear l ∧ Heard l.number (fun p => p.kind = .publish ∨ p = r) s s' ∧
      .received l.number r ∈ s'.history := by
  induction H with
  | @spent s h =>
    have h : deadline - s.wire.clock = 0 := h
    omega
  | failed _ h => exact absurd h recv_ne_error
  | silent _ h => exact nomatch hr.symm.trans (recv_none h).2
  | @accepted s p w a _ h hj =>
    obtain ⟨hp, rfl⟩ : p.kind ∈ expected ∧ p = a := by
      unfold expecting at hj
      split at hj
      · next hp => exact ⟨hp, Verdict.accept.inj hj⟩
      · exact nomatch hj
    have hkind : p.kind ≠ .publish := fun hk => hpublish (hk ▸ hp)
    have hreplies := (recv_some h).2
    rw [hr, if_pos hkind, List.singleton_append, List.cons.injEq] at hreplies
    obtain ⟨rfl, hw⟩ := hreplies
    exact ⟨rfl, ⟨hparked, hw.symm⟩, heard_got (.inr rfl) _ _, List.mem_cons_self⟩
  | @parked s p w _ _ _ h hj _ ih =>
    have hp : p.kind ∉ expected := by
      unfold expecting at hj
      split at hj
      · exact nomatch hj
      · assumption
    obtain ⟨hclock, hreplies⟩ := recv_some h
    -- a reply would have been accepted
    have hkind : p.kind = .publish := by
      by_contra hkind
      rw [hr, if_pos hkind, List.singleton_append, List.cons.injEq] at hreplies
      exact hp (hreplies.1 ▸ hexpected)
    rw [hr, if_neg (not_not.2 hkind), List.nil_append] at hreplies
    obtain ⟨hres, hclear, hheard, hmem⟩ := ih (hclock ▸ htime)
      ((Inbox.replies_park_publication hkind).trans hparked) hreplies.symm
    exact ⟨hres, hclear, (heard_got (.inl hkind) _ _).trans hheard, hmem⟩
  | dropped _ _ hj =>
    unfold expecting at hj
    split at hj <;> exact nomatch hj

end Session

end Geocast
