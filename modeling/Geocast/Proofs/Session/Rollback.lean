import Geocast.Proofs.Session.Run
import Geocast.Proofs.Session.Traffic
import Geocast.Session.Script

/-! # Rolling back a handoff

A session that is redirected goes from broker to broker until one accepts it. `Ledger` keeps account
of the channels that are opened and closed on the way: each is a new one, and all but those still
open were closed once. So when the chain fails and the last channel is closed, the session is the
one that was redirected, up to history and wire, and no channel is left open behind it
(`followRedirects_rolls_back`). The channel where it began takes no part in this, as long as the
session is `Numbered`. -/

namespace Geocast

open WireEvent

/-! ## Accounts of channels -/

/-- The number of channels that events open. -/
def openings (events : List WireEvent) : Nat := (events.filter isOpened).length

/-- The events opened channels with the numbers from `base` on, one after the other, used no others,
and closed all of them but those in `live`, each once. -/
structure Ledger (base : Nat) (events : List WireEvent) (live : List Nat) : Prop where
  own : ∀ e ∈ events, ∀ n, e.channel? = some n → base ≤ n
  opened : ∀ n, events.countP (·.opens n) = if base ≤ n ∧ n < base + openings events then 1 else 0
  closed : ∀ n, events.countP (·.closes n) + live.count n = events.countP (·.opens n)

namespace Ledger

variable {base n : Nat} {events : List WireEvent} {live : List Nat}

theorem empty (base : Nat) : Ledger base [] [] where
  own := nofun
  opened n := by
    rw [if_neg (by simp only [openings, List.filter_nil, List.length_nil]; omega)]
    rfl
  closed n := rfl

/-- A channel that is still open is one of those opened. -/
theorem bounds (H : Ledger base events live) (hn : n ∈ live) :
    base ≤ n ∧ n < base + openings events := by
  have hlive : 0 < live.count n := List.count_pos_iff.2 hn
  have hclosed := H.closed n
  have hopened := H.opened n
  split at hopened
  · assumption
  · omega

theorem open_ (H : Ledger base events live) (address id : String) :
    Ledger base (.opened (base + openings events) address id :: events)
      ((base + openings events) :: live) where
  own e he n hn := by
    rcases List.mem_cons.1 he with rfl | he
    · cases hn
      exact Nat.le_add_right ..
    · exact H.own e he n hn
  opened n := by
    have hlen : openings (.opened (base + openings events) address id :: events)
        = openings events + 1 := rfl
    rw [List.countP_cons, H.opened, hlen]
    by_cases hn : base + openings events = n
    · subst hn
      simp [opens]
    · have hiff : (base ≤ n ∧ n < base + (openings events + 1)) ↔
          base ≤ n ∧ n < base + openings events := by omega
      simp [hn, hiff]
  closed n := by
    have hclosed := H.closed n
    simp only [List.countP_cons, List.count_cons, opens_opened, closes_opened, beq_iff_eq,
      decide_eq_true_eq, Bool.false_eq_true, if_false] at hclosed ⊢
    omega

theorem refuse (H : Ledger base events live) (address id : String) :
    Ledger base (.refused address id :: events) live where
  own e he n hn := by
    rcases List.mem_cons.1 he with rfl | he
    · exact nomatch hn
    · exact H.own e he n hn
  opened n := by
    rw [List.countP_cons_of_neg (by simp)]
    exact H.opened n
  closed n := by simpa using H.closed n

theorem close (H : Ledger base events live) (hn : n ∈ live) (address : String) :
    Ledger base (.closed n address :: events) (live.erase n) where
  own e he m hm := by
    rcases List.mem_cons.1 he with rfl | he
    · cases hm
      exact (H.bounds hn).1
    · exact H.own e he m hm
  opened m := by
    rw [List.countP_cons_of_neg (by simp)]
    exact H.opened m
  closed m := by
    have hclosed := H.closed m
    have hpos : 0 < live.count n := List.count_pos_iff.2 hn
    simp only [List.countP_cons, opens_closed, closes_closed, decide_eq_true_eq, Bool.false_eq_true,
      if_false]
    by_cases hm : n = m
    · subst hm
      rw [List.count_erase_self, if_pos rfl]
      omega
    · rw [List.count_erase_of_ne (Ne.symm hm), if_neg hm]
      omega

theorem traffic (H : Ledger base events live) (hn : base ≤ n) {more : List WireEvent}
    (hmore : ∀ e ∈ more, e.IsTraffic n) : Ledger base (more ++ events) live := by
  have hopens (m : Nat) : more.countP (·.opens m) = 0 :=
    List.countP_eq_zero.2 fun e he => by simp [(hmore e he).opens m]
  have hcloses (m : Nat) : more.countP (·.closes m) = 0 :=
    List.countP_eq_zero.2 fun e he => by simp [(hmore e he).closes m]
  have hopenings : openings (more ++ events) = openings events := by
    have hnone : more.filter isOpened = [] :=
      List.filter_eq_nil_iff.2 fun e he => by simp [(hmore e he).isOpened]
    rw [openings, List.filter_append, hnone, List.nil_append, openings]
  refine ⟨fun e he m hm => ?_, fun m => ?_, fun m => ?_⟩
  · rcases List.mem_append.1 he with he | he
    · cases (hmore e he).channel?.symm.trans hm
      exact hn
    · exact H.own e he m hm
  · rw [List.countP_append, hopens, Nat.zero_add, hopenings, H.opened]
  · rw [List.countP_append, List.countP_append, hopens, hcloses, Nat.zero_add, Nat.zero_add,
      H.closed]

theorem opened_once (H : Ledger base events live) {address id : String}
    (h : .opened n address id ∈ events) : events.countP (·.opens n) = 1 := by
  have hpos : 0 < events.countP (·.opens n) := List.countP_pos_iff.2 ⟨_, h, by simp⟩
  have hopened := H.opened n
  split at hopened <;> omega

/-- When none is open any more, every channel that was opened was closed once. -/
theorem closed_once (H : Ledger base events []) {address id : String}
    (h : .opened n address id ∈ events) : events.countP (·.closes n) = 1 :=
  (H.closed n).trans (H.opened_once h)

end Ledger

namespace Session

variable {W : Wire} {o s s' : Session W}

/-! ## Hopping -/

/-- The session `s` left the session `o` and has come some way along a chain of redirects. -/
structure Hopping (o s : Session W) : Prop where
  events : ∃ events, s.history = events ++ o.history ∧
    Ledger o.opened events (s.link.toList.map Link.number)
  location : s.location = o.location
  subscriptions : s.subscriptions = o.subscriptions
  options : s.options = o.options

theorem opened_of_append {events : List WireEvent} (h : s.history = events ++ o.history) :
    s.opened = o.opened + openings events := by
  rw [Session.opened, h, List.filter_append, List.length_append, Nat.add_comm]
  rfl

namespace Hopping

theorem traffic (H : Hopping o s) {l : Link W} (hl : s.link = some l) (h : Traffic l.number s s') :
    Hopping o s' := by
  obtain ⟨events, hhistory, hledger⟩ := H.events
  obtain ⟨more, hmore, htraffic⟩ := h.events
  refine ⟨⟨more ++ events, ?_, ?_⟩, h.location.trans H.location,
    h.subscriptions.trans H.subscriptions, h.options.trans H.options⟩
  · rw [hmore, hhistory, List.append_assoc]
  · rw [h.link]
    exact hledger.traffic (hledger.bounds (by simp [hl])).1 htraffic

theorem left (H : Hopping o s) (target : BrokerInfo) : Hopping o (s.left target) := by
  unfold Session.left
  split <;> exact ⟨H.events, H.location, H.subscriptions, H.options⟩

theorem closed (H : Hopping o s) : Hopping o s.closed := by
  obtain ⟨events, hhistory, hledger⟩ := H.events
  unfold Session.closed
  cases hl : s.link with
  | none =>
    exact ⟨⟨events, hhistory, by simpa [hl] using hledger⟩, H.location, H.subscriptions, H.options⟩
  | some l =>
    refine ⟨⟨.closed l.number l.address :: events, ?_, ?_⟩, H.location, H.subscriptions, H.options⟩
    · exact congrArg _ hhistory
    · simpa [hl] using hledger.close (n := l.number) (by simp [hl]) l.address

/-- A hop opens a new channel and then closes that of the hop before. -/
theorem hopped (H : Hopping o s) (w : W.State) (c : W.Channel) (a a' id : String) :
    let s' : Session W := { s with wire := w, history := .opened s.opened a id :: s.history }
    Hopping o { s'.closed with link := some ⟨c, s.opened, a⟩, address := a' } := by
  obtain ⟨events, hhistory, hledger⟩ := H.events
  have hopened := hledger.open_ a id
  rw [← opened_of_append hhistory] at hopened
  intro s'
  unfold Session.closed
  cases hl : s'.link with
  | none =>
    have hl : s.link = none := hl
    refine ⟨⟨.opened s.opened a id :: events, ?_, ?_⟩, H.location, H.subscriptions, H.options⟩
    · exact congrArg _ hhistory
    · simpa [hl] using hopened
  | some l =>
    have hl : s.link = some l := hl
    refine ⟨⟨.closed l.number l.address :: .opened s.opened a id :: events, ?_, ?_⟩, H.location,
      H.subscriptions, H.options⟩
    · exact congrArg (_ :: _ :: ·) hhistory
    · have hne : s.opened ≠ l.number := by
        have := (hledger.bounds (n := l.number) (by simp [hl])).2
        rw [← opened_of_append hhistory] at this
        omega
      have hclosed := hopened.close (n := l.number) (by simp [hl]) l.address
      simpa [hl, List.erase_cons, hne] using hclosed

end Hopping

theorem register_traffic {n : Nat} (hn : s.Uses n) :
    Ends s register (fun _ s' => Traffic n s s') fun _ s' => Traffic n s s' := by
  refine registerRetrying_keeps (P := Traffic n s) (fun s₁ h => ?_) (fun _ _ h => h) 1 s (.refl n s)
  simp only [askToRegister, ends_bind, ends_get]
  refine (send_traffic (h.uses hn) _).mono (fun _ s₂ h' => ?_) fun _ _ h' => h.trans h'
  exact (await_traffic (h'.uses (h.uses hn)) _ _ _).mono (fun _ _ h'' => h.trans (h'.trans h''))
    fun _ _ h'' => h.trans (h'.trans h'')

/-- One hop, whatever comes of it, keeps the account. -/
theorem handoff_hopping (target : BrokerInfo) :
    Keeps (Hopping o) (fun _ => Hopping o) (handoff target) := by
  intro s H
  simp only [handoff, ends_bind, ends_leave, ends_inHandoff, ends_closeChannel, ends_modify]
  have hleft : Hopping o (s.left target) := H.left target
  refine ends_dial (fun c w _ => ?_) fun e w _ => ?_
  · have hhopped := hleft.hopped w c target.address target.address (s.left target).id
    exact (register_traffic (uses_of_link (by rfl))).mono (fun _ _ h => hhopped.traffic rfl h)
      fun _ _ h => hhopped.traffic rfl h
  · obtain ⟨events, hhistory, hledger⟩ := hleft.events
    exact ⟨⟨_ :: events, congrArg _ hhistory, hledger.refuse target.address (s.left target).id⟩,
      hleft.location, hleft.subscriptions, hleft.options⟩

theorem hopUntilAccepted_hopping (limit hops : Nat) (target : BrokerInfo) :
    Keeps (Hopping o) (fun _ => Hopping o) (hopUntilAccepted limit hops target) :=
  hopUntilAccepted_keeps handoff_hopping (fun _ H => H) hops target

/-! ## The end of a chain -/

/-- The session `s'` is `s` again, but for wire and history: on the way it used new channels only,
and closed each that it opened once. -/
structure RolledBack (s s' : Session W) : Prop extends Steady s s' where
  inbox : s'.inbox = s.inbox
  events : ∃ events, s'.history = events ++ s.history ∧ Ledger s.opened events []

/-- The open channel of `s'`, if there is one, was not open yet in `s`. -/
def Moved (s s' : Session W) : Prop :=
  ∀ l, s'.link = some l → s.opened ≤ l.number ∧ l.number < s'.opened

theorem Hopping.moved (H : Hopping o s) : Moved o s := by
  obtain ⟨events, hhistory, hledger⟩ := H.events
  intro l hl
  rw [opened_of_append hhistory]
  exact hledger.bounds (by simp [hl])

theorem Moved.movedFrom (H : Moved o s) : Moved o (s.movedFrom o) := by
  unfold Session.movedFrom
  split <;> exact H

/-- A chain of redirects that fails is rolled back; any other leaves the session on a new
channel. -/
theorem followRedirects_cases (target : BrokerInfo) (s : Session W) :
    Ends s (followRedirects target) (fun _ s' => Moved s s') fun _ s' => RolledBack s s' := by
  rw [ends_followRedirects]
  have H : Hopping s { s with link := none, inbox := .empty } :=
    ⟨⟨[], rfl, .empty _⟩, rfl, rfl, rfl⟩
  refine (hopUntilAccepted_hopping _ _ target _ H).mono (fun _ s' h => h.moved.movedFrom) ?_
  intro e s' h
  have hclosed : Hopping s s'.closed := h.closed
  obtain ⟨events, hhistory, hledger⟩ := hclosed.events
  rw [closed_link] at hledger
  exact ⟨⟨rfl, rfl, rfl, hclosed.location, hclosed.subscriptions, rfl, hclosed.options⟩, rfl,
    events, hhistory, hledger⟩

theorem RolledBack.opened_le (H : RolledBack s s') : s.opened ≤ s'.opened := by
  obtain ⟨events, hhistory, -⟩ := H.events
  rw [opened_of_append hhistory]
  exact Nat.le_add_right ..

theorem RolledBack.numbered (H : RolledBack s s') (hs : s.Numbered) : s'.Numbered := by
  intro l hl
  have hlt := hs l (H.link ▸ hl)
  have hle := H.opened_le
  omega

theorem Moved.numbered (H : Moved s s') : s'.Numbered := fun l hl => (H l hl).2

/-- Nothing that happened before a chain was rolled back is about the channel where it began. -/
theorem RolledBack.channel?_ne {l : Link W} (hl : s.link = some l) (hs : s.Numbered)
    {events : List WireEvent} (h : Ledger s.opened events []) :
    ∀ e ∈ events, e.channel? ≠ some l.number := by
  intro e he hchannel
  have hown := h.own e he _ hchannel
  have hnumber := hs l hl
  omega

/-- A handoff that fails is rolled back completely, on every wire: id, address, open channel,
visited brokers, inbox, tracked subscriptions and location are those before the first hop. Nothing
of what happened in between is about the channel where it began, so nothing was sent on it and it
was not closed, and every channel that was opened was closed exactly once. -/
theorem followRedirects_rolls_back {target : BrokerInfo} {e : SessionError} (hs : s.Numbered)
    (h : exec (followRedirects target) s = (.error e, s')) :
    s'.id = s.id ∧ s'.address = s.address ∧ s'.link = s.link ∧ s'.visited = s.visited ∧
    s'.inbox = s.inbox ∧ s'.subscriptions = s.subscriptions ∧ s'.location = s.location ∧
    ∃ events, s'.history = events ++ s.history ∧
      (∀ l, s.link = some l → ∀ x ∈ events, x.channel? ≠ some l.number) ∧
      ∀ n address id, .opened n address id ∈ events →
        events.countP (·.opens n) = 1 ∧ events.countP (·.closes n) = 1 := by
  have H : RolledBack s s' := (followRedirects_cases target s).error h
  obtain ⟨events, hhistory, hledger⟩ := H.events
  refine ⟨H.id, H.address, H.link, H.visited, H.inbox, H.subscriptions, H.location, events,
    hhistory, fun l hl => RolledBack.channel?_ne hl hs hledger, fun n address id hn => ?_⟩
  have hclosed := hledger.closed_once hn
  have hopened := hledger.closed n
  rw [List.count_nil, Nat.add_zero] at hopened
  exact ⟨hopened ▸ hclosed, hclosed⟩

/-- A session at the broker "A", and a chain of redirects that leads by "B" to a broker that cannot
be reached. -/
def strayed : Session Script.wire :=
  (start "c" none ⟨100, 100, 100, 3⟩ (Script.start ["c:1"] (Table.insert (Table.insert ∅ "a:1"
    [.deliver [(0, .payload (.connAck .success))]]) "b:1"
    [.deliver [(0, .payload (.disconnect .wrongBroker (some ⟨"C", "c:1"⟩)))]]) 0)).after
  [.connect "a:1"]

/-- The session goes to "B" and back, and is at "A" as before. -/
theorem strayed_rolls_back : strayed.Numbered ∧ strayed.isConnected ∧
    ∃ e s', exec (followRedirects ⟨"B", "b:1"⟩) strayed = (.error e, s') ∧
      s'.link = strayed.link ∧ s'.subscriptions = strayed.subscriptions ∧
      s'.history.length = strayed.history.length + 5 := by
  have hs : strayed.Numbered := by
    intro l hl
    have hnumber : strayed.link.all (·.number < strayed.opened) := by decide +kernel
    rw [hl] at hnumber
    simpa using hnumber
  obtain ⟨e, he⟩ := exec_of_toOption_none
    (show (exec (followRedirects ⟨"B", "b:1"⟩) strayed).1.toOption = none by decide +kernel)
  obtain ⟨-, -, hlink, -, -, hsubscriptions, -⟩ := followRedirects_rolls_back hs he
  exact ⟨hs, by decide +kernel, e, _, he, hlink, hsubscriptions, by decide +kernel⟩

end Session

end Geocast
