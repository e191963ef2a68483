import Geocast.Proofs.Federation.Waiting
import Geocast.Proofs.Session.Roaming

/-! # Sessions that leave others alone

A session on a federation acts under its own id at the addresses that it calls. `Confined` says that
meanwhile the other clients stand as they did before, and that the channel of the session is
registered and its own; every action on the channel keeps this. What the session asks there is
answered at once (`send_asked`, `await_told`). -/

namespace Geocast

/-- The federation around a session: its areas, the addresses and ids under which the session may
call, and the clients, by address and id, that it has to leave as they were. -/
structure Surroundings where
  areas : List BrokerArea
  own : String → String → Prop
  others : String → String → Prop
  before : Federation

/-- What is the session's own belongs neither to others nor to brokers. -/
def Surroundings.Free (V : Surroundings) : Prop :=
  ∀ A y, V.own A y → ¬ V.others A y ∧ Outsider V.areas y

namespace Session

open Federation

variable {V : Surroundings} {s s' : Session Federation.wire} {l : Link Federation.wire}
  {address : String}

/-- The session leaves the others as they were, and has its channel for itself. -/
structure Confined (V : Surroundings) (s : Session Federation.wire) : Prop where
  charted : Charted V.areas s.wire
  outsiders : ∀ A y, V.others A y → Outsider V.areas y
  unmoved : ∀ A y, V.others A y → Unmoved V.before s.wire A y
  owned : ∀ l, s.link = some l → ¬ V.others l.channel.address l.channel.clientId ∧
    connection? s.wire l.channel.address l.channel.clientId = some l.channel.number
  numbered : s.Numbered
  bounded : ∀ e ∈ s.history, ∀ n, e.channel? = some n → n < s.opened

/-- The open channel leads where the session called last, under its id. -/
def Placed (s : Session Federation.wire) : Prop :=
  ∀ l, s.link = some l → l.channel.address = s.address ∧ l.channel.clientId = s.id

theorem Steady.placed (H : Steady s s') (h : s.Placed) : s'.Placed := fun l hl => by
  rw [H.address, H.id]
  exact h l (H.link ▸ hl)

namespace Confined

/-- Waiting on the open channel moves nobody. -/
theorem traffic (H : Confined V s) (hl : s.link = some l) (ht : Traffic l.number s s')
    (hd : Drained l.channel.number s.wire s'.wire) : Confined V s' where
  charted := hd.charted H.charted
  outsiders := H.outsiders
  unmoved A y hA := by
    refine (H.unmoved A y hA).trans (hd.unmoved fun hk => ?_)
    obtain ⟨hnot, hown⟩ := H.owned l hl
    obtain ⟨rfl, rfl⟩ := H.charted.once hown hk
    exact hnot hA
  owned l' hl' := by
    obtain ⟨hnot, hown⟩ := H.owned l' (ht.link ▸ hl')
    exact ⟨hnot, (hd.connection? _ _).trans hown⟩
  numbered := ht.numbered H.numbered
  bounded := by
    obtain ⟨events, hhistory, hevents⟩ := ht.events
    intro e he n hn
    rw [ht.opened]
    rw [hhistory, List.mem_append] at he
    rcases he with he | he
    · cases (hevents e he).channel?.symm.trans hn
      exact H.numbered l hl
    · exact H.bounded e he n hn

/-- Sending on the open channel moves nobody else. -/
theorem sent (H : Confined V s) (hl : s.link = some l) (p : Payload) : Confined V { s with
    wire := Federation.deliver s.wire l.channel.address l.channel.clientId p
    history := .sent l.number l.address p :: s.history } where
  charted := H.charted.deliver ..
  outsiders := H.outsiders
  unmoved A y hA := by
    refine (H.unmoved A y hA).trans (H.charted.deliver_unmoved (H.outsiders A y hA) ?_ p)
    rintro ⟨rfl, rfl⟩
    exact (H.owned l hl).1 hA
  owned l' hl' := by
    obtain ⟨hnot, hown⟩ := H.owned l' hl'
    exact ⟨hnot, (deliver_connection? ..).trans hown⟩
  numbered := H.numbered
  bounded := by
    refine List.forall_mem_cons.2 ⟨fun n hn => ?_, H.bounded⟩
    cases hn
    exact H.numbered l hl

/-- Closing another channel of the session's own moves nobody else. -/
theorem hungUp (H : Confined V s) {c : FederationChannel} {n : Nat} {a : String}
    (hc : ¬ V.others c.address c.clientId)
    (hne : ∀ l, s.link = some l → c.number ≠ l.channel.number) (hn : n < s.opened) :
    Confined V { s with
      wire := Federation.close c s.wire, history := .closed n a :: s.history } where
  charted := H.charted.close c
  outsiders := H.outsiders
  unmoved A y hA := by
    refine (H.unmoved A y hA).trans (H.charted.close_unmoved (H.outsiders A y hA) ?_)
    rintro ⟨rfl, rfl⟩
    exact hc hA
  owned l hl := by
    obtain ⟨hnot, hown⟩ := H.owned l hl
    exact ⟨hnot, connection?_close hown (hne l hl)⟩
  numbered := H.numbered
  bounded := by
    refine List.forall_mem_cons.2 ⟨fun m hm => ?_, H.bounded⟩
    cases hm
    exact hn

theorem unlinked (H : Confined V s) (i : Inbox) : Confined V { s with link := none, inbox := i } :=
  ⟨H.charted, H.outsiders, H.unmoved, nofun, nofun, H.bounded⟩

theorem closed (H : Confined V s) : Confined V s.closed := by
  unfold Session.closed
  cases hl : s.link with
  | none => exact H.unlinked _
  | some l => exact (H.unlinked .empty).hungUp (H.owned l hl).1 nofun (H.numbered l hl)

/-- A new channel under an id of the session's own moves nobody. -/
theorem dialed (H : Confined V s) {n : Node} (hn : (Federation.nodes s.wire).get? address = some n)
    {c : String} (hc : ¬ V.others address c) (i : Inbox) : Confined V { s with
      wire := Federation.registered s.wire address c
      history := .opened s.opened address c :: s.history
      link := some ⟨⟨Federation.opened s.wire, address, c⟩, s.opened, address⟩
      inbox := i } where
  charted := H.charted.registered hn c
  outsiders := H.outsiders
  unmoved A y hA := by
    refine (H.unmoved A y hA).trans (registered_unmoved hn ?_)
    rintro ⟨rfl, rfl⟩
    exact hc hA
  owned l hl := by
    cases hl
    exact ⟨hc, (connection?_registered hn ..).trans (if_pos ⟨rfl, rfl⟩)⟩
  numbered l hl := by
    cases hl
    exact Nat.lt_succ_self _
  bounded e he m hm := by
    rcases List.mem_cons.1 he with rfl | he
    · cases hm
      exact Nat.lt_succ_self _
    · exact Nat.lt_succ_of_lt (H.bounded e he m hm)

theorem refused (H : Confined V s) (address c : String) :
    Confined V { s with history := .refused address c :: s.history } :=
  ⟨H.charted, H.outsiders, H.unmoved, H.owned, H.numbered,
    List.forall_mem_cons.2 ⟨nofun, H.bounded⟩⟩

/-- On a channel that is not opened yet nobody was sent away. -/
theorem not_sentAway (H : Confined V s) : ¬ s.SentAway s.opened := fun ⟨_, h⟩ =>
  Nat.lt_irrefl _ (H.bounded _ h _ rfl)

end Confined

/-! ## Actions -/

theorem receive_confined {α : Type} (H : Confined V s) (judge : Payload → Verdict α)
    (budget : Nat) : Ends s (receive judge budget) (fun _ s' => Confined V s' ∧ Steady s s')
      fun _ s' => Confined V s' ∧ Steady s s' := by
  refine ends_receive (fun _ => ⟨H, .refl s⟩) (fun l a s' hl h => ?_) fun l e s' hl h => ?_
  all_goals exact ⟨H.traffic hl h.traffic h.drained, h.steady⟩

theorem Confined.inbox (H : Confined V s) (i : Inbox) : Confined V { s with inbox := i } :=
  ⟨H.charted, H.outsiders, H.unmoved, H.owned, H.numbered, H.bounded⟩

theorem next?_confined (H : Confined V s) (expected : List PayloadKind) (budget : Nat) :
    Ends s (next? expected budget) (fun _ s' => Confined V s' ∧ Steady s s')
      fun _ s' => Confined V s' ∧ Steady s s' :=
  ends_next? (fun _ i _ => ⟨H.inbox i, ⟨rfl, rfl, rfl, rfl, rfl, rfl, rfl⟩⟩)
    fun _ => receive_confined H _ budget

theorem await_confined (H : Confined V s) (expected : List PayloadKind) (budget : Nat)
    (awaited : String) : Ends s (await expected budget awaited)
      (fun _ s' => Confined V s' ∧ Steady s s') fun _ s' => Confined V s' ∧ Steady s s' := by
  rw [await, ends_bind]
  refine (next?_confined H expected budget).mono (fun a s' h => ?_) fun _ _ h => h
  cases a with
  | none => exact h
  | some p => exact h

theorem send_confined (H : Confined V s) (p : Payload) :
    Ends s (send p) (fun _ s' => Confined V s' ∧ Steady s s')
      fun _ s' => Confined V s' ∧ Steady s s' := by
  refine ends_send (fun _ => ⟨H, .refl s⟩) (fun l w hl h => ?_) fun l e w hl h => ?_
  · cases h
    exact ⟨H.sent hl p, ⟨rfl, rfl, rfl, rfl, rfl, rfl, rfl⟩⟩
  · exact nomatch h

/-! ## Asking -/

/-- The session `s'` has sent the request `p`, and the answer `r` is on its way. -/
structure Asked (s s' : Session Federation.wire) (l : Link Federation.wire) (p r : Payload) : Prop
    extends Steady s s' where
  parked : s'.inbox.replies = []
  underWay : repliesTo l.channel.number s'.wire.mail = [r]
  sentAway : ∀ n, s'.SentAway n ↔ s.SentAway n
  answered : Served s.record p r s'.record

/-- The session `s'` has sent the request `p` and read the answer `r`. -/
structure Told (s s' : Session Federation.wire) (l : Link Federation.wire) (p r : Payload) : Prop
    extends Steady s s', Clear s' l where
  sentAway : ∀ n, s'.SentAway n ↔
    s.SentAway n ∨ n = l.number ∧ ∃ target, r = .disconnect .wrongBroker target
  answered : Served s.record p r s'.record

theorem sentAway_cons {e : WireEvent} {events : List WireEvent} {n : Nat}
    (he : ∀ p, e ≠ .received n p) :
    (∃ target, .received n (.disconnect .wrongBroker target) ∈ e :: events) ↔
      ∃ target, .received n (.disconnect .wrongBroker target) ∈ events :=
  exists_congr fun _ => List.mem_cons.trans (or_iff_right fun h => he _ h.symm)

/-- A request on the open channel is answered there. -/
theorem send_asked (H : Confined V s) (hplaced : s.Placed) (hl : s.link = some l)
    (hclear : s.Clear l) (hid : Outsider V.areas s.id) {p : Payload} (hp : p.IsRequest) :
    Ends s (send p) (fun _ s' => Confined V s' ∧ ∃ r, Asked s s' l p r) fun _ _ => False := by
  refine ends_send (fun h => nomatch h.symm.trans hl) (fun l' w hl' h => ?_)
    fun l' e w hl' h => nomatch h
  obtain rfl := Option.some.inj (hl.symm.trans hl')
  cases h
  obtain ⟨-, hown⟩ := H.owned l hl
  obtain ⟨haddress, hclient⟩ := hplaced l hl
  obtain ⟨r, hr, hanswered⟩ := H.charted.send_answered (hclient ▸ hid) hown hp
  refine ⟨H.sent hl p, r, ⟨rfl, rfl, rfl, rfl, rfl, rfl, rfl⟩, hclear.parked, ?_, fun n => ?_, ?_⟩
  · rw [hclear.underWay, List.nil_append] at hr
    exact hr
  · exact sentAway_cons fun _ => nofun
  · rw [haddress, hclient] at hanswered
    simpa only [record, haddress, hclient] using hanswered

theorem record_of_drained {n : Nat} (H : Drained n s.wire s'.wire) (h : Steady s s') :
    s'.record = s.record := by
  rw [record, record, h.address, h.id]
  exact H.record? ..

/-- A reception that lasts reads the answer. -/
theorem Asked.told {s₀ : Session Federation.wire} {p r : Payload} {expected : List PayloadKind}
    {budget : Nat} {res : Except SessionError (Option Payload)} (h : Asked s₀ s l p r)
    (H : Confined V s) (hl : s.link = some l) (hexpected : r.kind ∈ expected)
    (hpublish : .publish ∉ expected) (hbudget : budget ≠ 0)
    (hr : Reception (expecting expected) (Federation.clock s.wire + budget) l s res s') :
    res = .ok (some r) ∧ Confined V s' ∧ Told s₀ s' l p r := by
  have htime : Federation.clock s.wire < Federation.clock s.wire + budget :=
    Nat.lt_add_of_pos_right (Nat.pos_of_ne_zero hbudget)
  obtain ⟨hres, hclear, hheard, hmem⟩ :=
    hr.answered htime h.parked h.underWay hexpected hpublish
  have hsteady : Steady s₀ s' := h.toSteady.trans hr.steady
  refine ⟨hres, H.traffic hl hr.traffic hr.drained, hsteady, hclear, fun n => ?_, ?_⟩
  · rw [hheard.sentAway_iff hmem, h.sentAway]
  · rw [record_of_drained hr.drained hr.steady]
    exact h.answered

/-- A wait for the answer reads it, unless it does not last at all. -/
theorem await_told {s₀ : Session Federation.wire} {p r : Payload} (H : Confined V s)
    (h : Asked s₀ s l p r) (hl : s.link = some l) {expected : List PayloadKind} {budget : Nat}
    {awaited : String} (hexpected : r.kind ∈ expected) (hpublish : .publish ∉ expected) :
    Ends s (await expected budget awaited) (fun q s' => q = r ∧ Confined V s' ∧ Told s₀ s' l p r)
      fun _ s' => budget = 0 ∧ Confined V s' ∧ Steady s₀ s' := by
  have hnone : s.inbox.take? expected = none := Inbox.take?_eq_none h.parked hpublish
  rw [await, ends_bind]
  refine ends_next? (fun q i hq => ?_) fun _ => ?_
  · cases hnone.symm.trans hq
  refine ends_receive (fun hc => ?_) (fun l' a s' hl' hr => ?_) fun l' e s' hl' hr => ?_
  · cases hc.symm.trans hl
  all_goals
    obtain rfl := Option.some.inj (hl.symm.trans hl')
    by_cases hbudget : budget = 0
  · subst hbudget
    have hconfined := H.traffic hl hr.traffic hr.drained
    have hsteady : Steady s₀ s' := h.toSteady.trans hr.steady
    cases hr with
    | spent => exact ⟨rfl, hconfined, hsteady⟩
    | silent htime | accepted htime | parked htime | dropped htime =>
      exact absurd (Nat.sub_self _) htime
  · obtain ⟨ha, hconfined, htold⟩ := h.told H hl hexpected hpublish hbudget hr
    cases ha
    exact ⟨rfl, hconfined, htold⟩
  · exact ⟨hbudget, H.traffic hl hr.traffic hr.drained, h.toSteady.trans hr.steady⟩
  · obtain ⟨he, -⟩ := h.told H hl hexpected hpublish hbudget hr
    cases he

end Session

end Geocast
