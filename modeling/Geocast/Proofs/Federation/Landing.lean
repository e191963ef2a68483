import Geocast.Proofs.Federation.Confined
import Geocast.Proofs.Session.Parking

/-! # Connecting lands where it should

A client that connects to any broker of a federation ends at one that is responsible for its
location, after one redirect at most. A broker that has the id on record refuses it once and forgets
it, so the second registration goes through; one that is not responsible names one that is. On its
new channel the session is `Attending`: the channel is its own and nothing is on its way. Then the
broker greets it as its record and its atlas say (`Greeted`), whatever else the federation is doing.
-/

namespace Geocast

/-- How a broker with the atlas `a` greets a client at `l`: what it has on record of the client, its
reply to the registration, and what it has on record afterwards. -/
inductive Greeted (a : Atlas) (l : Option Location) :
    Option ClientRecord → Payload → Option ClientRecord → Prop
  | welcomed : a.isResponsibleFor l → Greeted a l none (.connAck .success) (some ⟨l, ∅⟩)
  | refused (record : ClientRecord) : a.isResponsibleFor l →
    Greeted a l (some record) (.disconnect .protocolError none) none
  | redirected (old : Option ClientRecord) : a.isResponsibleFor l = false →
    Greeted a l old (.disconnect .wrongBroker (a.peerFor? l)) none

theorem Broker.connect_greeted (b : Broker) (c : String) (l : Option Location) :
    ∃ r, (b.handle c (.connect l)).2 = .send c r ∧
      Greeted b.atlas l (b.record? c) r ((b.handle c (.connect l)).1.record? c) := by
  have hevicted : (b.evict c).record? c = none := (b.evict_record? c c).trans (if_pos rfl)
  simp only [handle, connect]
  split
  · next hresponsible =>
    split
    · next h =>
      obtain ⟨hnone, rfl⟩ := Roster.add?_eq_some.1 h
      refine ⟨_, rfl, ?_⟩
      rw [show b.record? c = none from hnone, record?, Table.get?_insert, if_pos rfl]
      exact .welcomed hresponsible
    · next h =>
      obtain ⟨record, hrecord⟩ := Option.isSome_iff_exists.1 (Roster.add?_eq_none.1 h)
      refine ⟨_, rfl, ?_⟩
      rw [hevicted, show b.record? c = some record from hrecord]
      exact .refused record hresponsible
  · next h =>
    refine ⟨_, rfl, ?_⟩
    rw [show (b.redirect c l).1.record? c = none from hevicted]
    exact .redirected _ (by simpa using h)

theorem Greeted.kind {a : Atlas} {l : Option Location} {old new : Option ClientRecord} {r : Payload}
    (H : Greeted a l old r new) : r.kind ∈ [PayloadKind.connAck, .disconnect] := by
  cases H <;> simp [Payload.kind]

theorem Greeted.eq_redirect {a : Atlas} {l : Option Location} {old new : Option ClientRecord}
    {r : Payload} (H : Greeted a l old r new) (hnot : a.isResponsibleFor l = false) :
    r = .disconnect .wrongBroker (a.peerFor? l) := by
  cases H with
  | welcomed h | refused _ h => exact absurd h (by simp [hnot])
  | redirected => rfl

/-- Whether an event is a redirect that came in. -/
def WireEvent.isRedirect : WireEvent → Bool
  | received _ (.disconnect .wrongBroker _) => true
  | _ => false

namespace Federation

variable {areas : List BrokerArea} {f : Federation} {a : BrokerArea} {A x : String} {k : Nat}

/-- A registration is answered on the channel of the client, which may have the id of a broker. -/
theorem Charted.connect_greeted (H : Charted areas f) (ha : a ∈ areas)
    (hk : f.connection? a.broker.address x = some k) (l : Option Location) :
    ∃ r, repliesTo k (f.deliver a.broker.address x (.connect l)).mail = repliesTo k f.mail ++ [r] ∧
      Greeted (.view areas a) l (f.record? a.broker.address x) r
        ((f.deliver a.broker.address x (.connect l)).record? a.broker.address x) := by
  obtain ⟨n, hn, hruns⟩ := H.node a ha
  obtain ⟨r, hr, hgreeted⟩ := n.broker.connect_greeted x l
  have hreply : r.kind ≠ .publish := by
    intro hkind
    have hmem := hgreeted.kind
    simp [hkind] at hmem
  refine ⟨r, ?_, ?_⟩
  · rw [repliesTo_deliver_of_relayed H hn hk (by rw [hr]; rfl), if_pos rfl, hr]
    exact congrArg _ (Broker.repliesTo_single rfl hreply)
  · rw [record?_of_get? hn, record?_deliver hn, ← hruns.atlas]
    exact hgreeted

/-- A channel that is closed is registered no more. -/
theorem connection?_close_own {channel : FederationChannel}
    (h : f.connection? channel.address channel.clientId = some channel.number) :
    (close channel f).connection? channel.address channel.clientId = none := by
  obtain ⟨n, hn, hc⟩ := Option.bind_eq_some_iff.1 h
  have hclose : close channel f = (f.unregistered channel.address channel.clientId).deliver
      channel.address channel.clientId (.disconnect .normalDisconnection none) := by
    rw [close, hn]
    exact if_pos hc
  rw [hclose, deliver_connection?, connection?_unregistered, if_pos ⟨rfl, rfl⟩]

/-- Closing a channel leaves the brokers of other addresses alone. -/
theorem record?_close_other {channel : FederationChannel} (hne : channel.address ≠ A)
    (f : Federation) (y : String) : (close channel f).record? A y = f.record? A y := by
  rcases close_cases channel f with h | ⟨-, h⟩ <;> rw [h]
  rw [record?_deliver_other hne, record?_unregistered]

end Federation

namespace Session

open Federation

variable {areas : List BrokerArea} {a b : BrokerArea} {s s' : Session Federation.wire}
  {l : Link Federation.wire}

/-- The redirects that came in. -/
def redirects (s : Session Federation.wire) : Nat := s.history.countP (·.isRedirect)

/-- The session is on a channel of its own to the broker of the area `a`, and no reply is on its way
to it. -/
structure Attending (areas : List BrokerArea) (a : BrokerArea) (s : Session Federation.wire)
    (l : Link Federation.wire) : Prop extends Clear s l where
  charted : Charted areas s.wire
  mem : a ∈ areas
  address : s.address = a.broker.address
  link : s.link = some l
  channel : l.channel.address = s.address ∧ l.channel.clientId = s.id
  own : connection? s.wire s.address s.id = some l.channel.number

theorem redirects_closed (s : Session Federation.wire) : s.closed.redirects = s.redirects := by
  unfold closed
  split
  · exact List.countP_cons_of_neg (by simp [WireEvent.isRedirect])
  · rfl

theorem charted_closed (H : Charted areas s.wire) : Charted areas s.closed.wire := by
  unfold closed
  split
  · next l _ => exact H.close l.channel
  · exact H

/-- A channel just opened. -/
theorem attending_dialed (H : Charted areas s.wire) (ha : a ∈ areas) (hs : s.inbox.replies = []) :
    let l : Link Federation.wire :=
      ⟨⟨Federation.opened s.wire, a.broker.address, s.id⟩, s.opened, a.broker.address⟩
    Attending areas a { s with
      wire := Federation.registered s.wire a.broker.address s.id
      history := .opened s.opened a.broker.address s.id :: s.history
      link := some l, address := a.broker.address } l := by
  obtain ⟨n, hn, -⟩ := H.node a ha
  exact ⟨⟨hs, H.repliesTo_new⟩, H.registered hn s.id, ha, rfl, rfl, ⟨rfl, rfl⟩,
    (connection?_registered hn ..).trans (if_pos ⟨rfl, rfl⟩)⟩

/-- The session `s'` asked to be registered, and the reply `r` of the broker is on its way. -/
structure Awaiting (areas : List BrokerArea) (a : BrokerArea) (l : Link Federation.wire)
    (s s' : Session Federation.wire) (r : Payload) : Prop extends Steady s s' where
  parked : s'.inbox.replies = []
  underWay : repliesTo l.channel.number s'.wire.mail = [r]
  charted : Charted areas s'.wire
  own : connection? s'.wire s.address s.id = some l.channel.number
  redirects : s'.redirects = s.redirects
  greeted : Greeted (.view areas a) s.location s.record r s'.record

/-- The session `s'` asked to be registered, and read the reply `r` of the broker. -/
structure Greeting (areas : List BrokerArea) (a : BrokerArea) (l : Link Federation.wire)
    (s s' : Session Federation.wire) (r : Payload) : Prop extends Attending areas a s' l where
  steady : Steady s s'
  redirects : s'.redirects =
    s.redirects + if WireEvent.isRedirect (.received l.number r) then 1 else 0
  greeted : Greeted (.view areas a) s.location s.record r s'.record

theorem send_awaiting (H : Attending areas a s l) : Ends s (send (.connect s.location))
    (fun _ s' => ∃ r, Awaiting areas a l s s' r) fun _ _ => False := by
  refine ends_send (fun h => by cases h.symm.trans H.link) (fun l' w hl' h => ?_)
    fun _ _ _ _ h => by cases h
  obtain rfl := Option.some.inj (H.link.symm.trans hl')
  cases h
  obtain ⟨hchannel, hclient⟩ := H.channel
  have hown := H.own
  rw [H.address] at hown hchannel
  obtain ⟨r, hr, hgreeted⟩ := H.charted.connect_greeted H.mem hown s.location
  rw [H.underWay, List.nil_append] at hr
  rw [hchannel, hclient]
  refine ⟨r, ⟨rfl, rfl, rfl, rfl, rfl, rfl, rfl⟩, H.parked, hr, ?_, ?_, ?_, ?_⟩
  · exact H.charted.deliver a.broker.address s.id (.connect s.location)
  · exact (deliver_connection? s.wire a.broker.address s.id (.connect s.location) s.address
      s.id).trans H.own
  · exact List.countP_cons_of_neg (by simp [WireEvent.isRedirect])
  · rw [record, record, H.address]
    exact hgreeted

/-- Of what comes in until the reply to a registration, the reply alone can be a redirect. -/
theorem redirects_of_came {n : Nat} {r : Payload} {between : List WireEvent}
    (hhistory : s'.history = .received n r :: (between ++ s.history))
    (hbetween : ∀ e ∈ between, ∃ q, e = .received n q ∧
      q.kind ∉ [PayloadKind.connAck, .disconnect]) :
    s'.redirects = s.redirects + if WireEvent.isRedirect (.received n r) then 1 else 0 := by
  have hnone : between.countP (·.isRedirect) = 0 := by
    refine List.countP_eq_zero.2 fun e he hredirect => ?_
    obtain ⟨q, rfl, hq⟩ := hbetween e he
    cases q with
    | disconnect => exact hq (by simp [Payload.kind])
    | _ => cases hredirect
  rw [redirects, redirects, hhistory, List.countP_cons, List.countP_append, hnone, Nat.zero_add]

/-- A wait that lasts at all reads the reply. -/
theorem Awaiting.read {s₀ : Session Federation.wire} {r : Payload} {budget : Nat}
    {res : Except SessionError (Option Payload)} (h : Awaiting areas a l s₀ s r)
    (H : Attending areas a s₀ l) (htime : 0 < budget)
    (hr : Reception (expecting [.connAck, .disconnect]) (Federation.clock s.wire + budget) l s res
      s') :
    res = .ok (some r) ∧ Greeting areas a l s₀ s' r := by
  obtain ⟨hres, hclear, -, -⟩ := hr.answered (Nat.lt_add_of_pos_right htime) h.parked h.underWay
    h.greeted.kind (by decide)
  obtain ⟨between, hhistory, hbetween⟩ := hr.came hres
  have hsteady : Steady s₀ s' := h.toSteady.trans hr.steady
  refine ⟨hres, ⟨⟨hclear, hr.drained.charted h.charted, H.mem, hsteady.address.trans H.address,
    hsteady.link.trans H.link, ?_, ?_⟩, hsteady, ?_, ?_⟩⟩
  · rw [hsteady.address, hsteady.id]
    exact H.channel
  · rw [hsteady.address, hsteady.id, hr.drained.connection?]
    exact h.own
  · rw [redirects_of_came hhistory hbetween, h.redirects]
  · rw [record_of_drained hr.drained hr.steady]
    exact h.greeted

/-- A session that waits at all reads how it is greeted. -/
theorem askToRegister_greeted (H : Attending areas a s l) (htime : 0 < s.options.connectTimeout) :
    Ends s askToRegister (fun r s' => Greeting areas a l s s' r) fun _ _ => False := by
  simp only [askToRegister, ends_bind, ends_get]
  refine (send_awaiting H).mono ?_ fun _ _ h => h
  rintro - s₁ ⟨r, h₁⟩
  have hlink : s₁.link = some l := h₁.link.trans H.link
  rw [await, ends_bind]
  refine ends_next? (fun q i hq => ?_) fun _ => ?_
  · cases (Inbox.take?_eq_none h₁.parked (by decide)).symm.trans hq
  refine ends_receive (fun hc => by cases hc.symm.trans hlink) (fun l' x s' hl' hr => ?_)
    fun l' e s' hl' hr => ?_
  all_goals obtain rfl := Option.some.inj (hlink.symm.trans hl')
  · obtain ⟨hx, hgreeting⟩ := h₁.read H htime hr
    cases hx
    exact hgreeting
  · cases (h₁.read H htime hr).1

/-! ## Registering -/

/-- Registered on the open channel, under the id and at the location of the session. -/
structure Welcomed (areas : List BrokerArea) (a : BrokerArea) (l : Link Federation.wire)
    (s s' : Session Federation.wire) : Prop extends Attending areas a s' l where
  steady : Steady s s'
  redirects : s'.redirects = s.redirects
  record : s'.record = some ⟨s.location, ∅⟩

/-- A responsible broker accepts the registration, the second one at the latest. -/
theorem register_welcomed (H : Attending areas a s l) (htime : 0 < s.options.connectTimeout)
    (hserves : (Atlas.view areas a).isResponsibleFor s.location) : Ends s register
      (fun x s' => x = .accepted ∧ Welcomed areas a l s s') fun _ _ => False := by
  simp only [register, registerRetrying, ends_bind]
  refine (askToRegister_greeted H htime).mono ?_ fun _ _ h => h
  rintro r s₁ h₁
  obtain ⟨hattending, hsteady, hredirects, hgreeted⟩ := h₁
  generalize hold : s.record = old at hgreeted
  generalize hnew : s₁.record = new at hgreeted
  cases hgreeted with
  | welcomed => exact ⟨rfl, hattending, hsteady, hredirects, hnew⟩
  | redirected _ hnot => exact absurd hserves (by simp [hnot])
  | refused =>
    simp only [ends_bind]
    refine (askToRegister_greeted hattending (hsteady.options ▸ htime)).mono ?_ fun _ _ h => h
    rintro r s₂ ⟨hattending₂, hsteady₂, hredirects₂, hgreeted₂⟩
    rw [hnew, hsteady.location] at hgreeted₂
    generalize hnew₂ : s₂.record = new at hgreeted₂
    cases hgreeted₂ with
    | welcomed =>
      exact ⟨rfl, hattending₂, hsteady.trans hsteady₂, hredirects₂.trans hredirects, hnew₂⟩
    | redirected _ hnot => exact absurd hserves (by simp [hnot])

/-- A broker that is not responsible redirects to the peer that is, if there is one. -/
theorem register_redirected (H : Attending areas a s l) (htime : 0 < s.options.connectTimeout)
    (hnot : (Atlas.view areas a).isResponsibleFor s.location = false) : Ends s register
      (fun x s' => ∃ t, (Atlas.view areas a).peerFor? s.location = some t ∧ x = .redirected t ∧
        Attending areas a s' l ∧ Steady s s' ∧ s'.redirects = s.redirects + 1)
      fun e s' => (Atlas.view areas a).peerFor? s.location = none ∧ e = .noResponsibleBroker ∧
        Attending areas a s' l ∧ Steady s s' := by
  simp only [register, registerRetrying, ends_bind]
  refine (askToRegister_greeted H htime).mono ?_ fun _ _ h => h.elim
  rintro r s₁ ⟨hattending, hsteady, hredirects, hgreeted⟩
  obtain rfl := hgreeted.eq_redirect hnot
  cases ht : (Atlas.view areas a).peerFor? s.location with
  | none => exact ⟨rfl, rfl, hattending, hsteady⟩
  | some t => exact ⟨t, rfl, rfl, hattending, hsteady, hredirects⟩

/-! ## Following the redirect -/

/-- The session `s'` has a channel to a broker responsible for where `s` was, which has it on record
under the id of `s` and without subscriptions. -/
structure Landed (areas : List BrokerArea) (s s' : Session Federation.wire) : Prop where
  id : s'.id = s.id
  connected : s'.isConnected
  responsible : ∃ a ∈ areas, (Atlas.view areas a).isResponsibleFor s.location
  broker : ∃ b, brokerAt? s'.wire s'.address = some b ∧ b.atlas.isResponsibleFor s.location ∧
    b.record? s.id = some ⟨s.location, ∅⟩

/-- A hop to a responsible broker that was not visited yet. -/
theorem handoff_welcomed (H : Charted areas s.wire) (hl : s.link = none) (hb : b ∈ areas)
    (htime : 0 < s.options.connectTimeout) (hnew : b.broker.address ∉ s.address :: s.visited)
    (hserves : (Atlas.view areas b).isResponsibleFor s.location) :
    Ends s (handoff b.broker) (fun x s' => x = .accepted ∧ ∃ l, Attending areas b s' l ∧
        s'.id = s.id ∧ s'.redirects = s.redirects ∧ s'.record = some ⟨s.location, ∅⟩)
      fun _ _ => False := by
  obtain ⟨n, hn, -⟩ := H.node b hb
  have hleft : s.left b.broker = { s with visited := s.address :: s.visited } := if_neg hnew
  simp only [handoff, ends_bind, ends_leave, ends_inHandoff, ends_closeChannel, ends_modify, hleft]
  refine ends_dial (fun c w h => ?_) fun e w h => ?_
  · obtain ⟨-, -, rfl, rfl⟩ := eq_of_dial_ok h
    rw [closed_of_unlinked (by exact hl)]
    have hdialed := attending_dialed (s := { s with
      visited := s.address :: s.visited, link := none, inbox := .empty }) H hb rfl
    refine (register_welcomed hdialed htime hserves).mono ?_ fun _ _ h => h
    rintro x s₁ ⟨rfl, h₁⟩
    refine ⟨rfl, _, h₁.toAttending, h₁.steady.id, ?_, h₁.record⟩
    exact h₁.redirects.trans (List.countP_cons_of_neg (by simp [WireEvent.isRedirect]))
  · cases (dial_eq hn _).symm.trans h

theorem landed_of_record {o : Session Federation.wire} (H : Charted areas s.wire) (ha : a ∈ areas)
    (haddress : s.address = a.broker.address) (hl : s.isConnected) (hid : s.id = o.id)
    (hserves : (Atlas.view areas a).isResponsibleFor o.location)
    (hrecord : record? s.wire a.broker.address s.id = some ⟨o.location, ∅⟩) : Landed areas o s := by
  obtain ⟨n, hn, hruns⟩ := H.node a ha
  refine ⟨hid, hl, ⟨a, ha, hserves⟩, n.broker, ?_, hruns.atlas ▸ hserves, ?_⟩
  · rw [haddress]
    exact congrArg (Option.map Node.broker) hn
  · rw [← hid, ← record?_of_get? hn]
    exact hrecord

theorem followRedirects_landed (H : Attending areas a s l) (hb : b ∈ areas)
    (hhops : 1 ≤ s.options.maxHandoffHops) (htime : 0 < s.options.connectTimeout)
    (hvisited : s.visited = []) (hnot : (Atlas.view areas a).isResponsibleFor s.location = false)
    (hserves : (Atlas.view areas b).isResponsibleFor s.location) :
    Ends s (followRedirects b.broker) (fun _ s' => Landed areas s s' ∧ s'.redirects = s.redirects)
      fun _ _ => False := by
  have hne : a.broker.address ≠ b.broker.address := fun h => by
    obtain rfl := H.charted.eq_of_address H.mem hb h
    exact absurd hserves (by simp [hnot])
  have hnew : b.broker.address ∉ s.address :: s.visited := by
    rw [hvisited, H.address, List.mem_singleton]
    exact hne.symm
  obtain ⟨hops, hhops⟩ := Nat.exists_eq_add_of_le' hhops
  rw [ends_followRedirects, hhops]
  simp only [hopUntilAccepted, ends_bind]
  refine (handoff_welcomed (s := { s with link := none, inbox := .empty }) H.charted rfl hb htime
    hnew hserves).mono ?_ fun _ _ h => h
  rintro _ s₁ ⟨rfl, l₁, H₁, hid, hredirects, hrecord⟩
  obtain ⟨hchannel, -⟩ := H.channel
  -- the channel where the redirect came in is closed at another broker
  have hother : l.channel.address ≠ b.broker.address := hchannel ▸ H.address ▸ hne
  simp only [ends_pure, movedFrom, H.link]
  refine ⟨landed_of_record (H₁.charted.close l.channel) hb H₁.address
    (Option.isSome_of_eq_some H₁.link) hid hserves ?_, ?_⟩
  · refine (record?_close_other hother s₁.wire s₁.id).trans ?_
    rw [← H₁.address]
    exact hrecord
  · exact (List.countP_cons_of_neg (by simp [WireEvent.isRedirect])).trans hredirects

/-! ## Connecting -/

/-- A session that closes its channel is registered there no more. -/
theorem Attending.closed (H : Attending areas a s l) :
    connection? s.closed.wire a.broker.address s.id = none := by
  obtain ⟨hchannel, hclient⟩ := H.channel
  have hclosed : s.closed.wire = Federation.close l.channel s.wire := by
    simp only [Session.closed, H.link]
    rfl
  have hown := H.own
  rw [← hchannel, ← hclient] at hown
  rw [hclosed, ← H.address, ← hchannel, ← hclient]
  exact connection?_close_own hown

theorem Landed.of_same (H : Landed areas s s') {o : Session Federation.wire} (hid : s.id = o.id)
    (hlocation : s.location = o.location) : Landed areas o s' := by
  obtain ⟨b, hb, hserves, hrecord⟩ := H.broker
  rw [hlocation] at hserves hrecord
  exact ⟨H.id.trans hid, H.connected, hlocation ▸ H.responsible, b, hb, hserves, hid ▸ hrecord⟩

/-- A session that just opened its channel lands, unless no broker is responsible. -/
theorem register_landed (H : Attending areas a s l) (hareas : Chartable areas)
    (hhops : 1 ≤ s.options.maxHandoffHops) (htime : 0 < s.options.connectTimeout)
    (hvisited : s.visited = []) :
    Ends s (do
      match ← register with
      | .accepted => return
      | .redirected target => followRedirects target)
      (fun _ s' => Landed areas s s' ∧ s'.redirects ≤ s.redirects + 1)
      fun e s' => (∀ b ∈ areas, ¬ Serves areas b s.location) ∧ e = .noResponsibleBroker ∧
        Attending areas a s' l ∧ Steady s s' := by
  rw [ends_bind]
  cases hserves : (Atlas.view areas a).isResponsibleFor s.location with
  | true =>
    refine (register_welcomed H htime hserves).mono ?_ fun _ _ h => h.elim
    rintro x s₁ ⟨rfl, h₁⟩
    refine ⟨landed_of_record h₁.charted h₁.mem h₁.address (Option.isSome_of_eq_some h₁.link)
      h₁.steady.id hserves ?_, Nat.le_succ_of_le (Nat.le_of_eq h₁.redirects)⟩
    rw [← h₁.address]
    exact h₁.record
  | false =>
    have hnot : ¬ Serves areas a s.location := by
      rw [← hareas.isResponsibleFor_view H.mem, hserves]
      exact Bool.false_ne_true
    refine (register_redirected H htime hserves).mono ?_ ?_
    · rintro x s₁ ⟨t, ht, rfl, H₁, hsteady, hredirects⟩
      obtain ⟨b, hb, rfl, hb'⟩ := hareas.serves_of_peerFor? H.mem hnot ht
      have hb' := (hareas.isResponsibleFor_view hb).2 hb'
      have hoptions := hsteady.options
      have hlocation := hsteady.location
      refine (followRedirects_landed H₁ hb (hoptions ▸ hhops) (hoptions ▸ htime)
        (hsteady.visited.trans hvisited) (hlocation ▸ hserves) (hlocation ▸ hb')).mono ?_
        fun _ _ h => h.elim
      rintro _ s₂ ⟨hlanded, hsame⟩
      exact ⟨hlanded.of_same hsteady.id hlocation, Nat.le_of_eq (hsame.trans hredirects)⟩
    · rintro e s₁ ⟨hnone, rfl, H₁, hsteady⟩
      exact ⟨(hareas.peerFor?_eq_none_iff H.mem hnot).1 hnone, rfl, H₁, hsteady⟩

/-- How connecting ends, at the broker of the area `a`. -/
theorem ends_connect (H : Charted areas s.wire) (hareas : Chartable areas) (ha : a ∈ areas)
    (hhops : 1 ≤ s.options.maxHandoffHops) (htime : 0 < s.options.connectTimeout) :
    Ends s (connect a.broker.address)
      (fun _ s' => Landed areas s s' ∧ s'.redirects ≤ s.redirects + 1)
      fun e s' => (∀ b ∈ areas, ¬ Serves areas b s.location) ∧ e = .noResponsibleBroker ∧
        s'.link = none ∧ connection? s'.wire a.broker.address s.id = none := by
  simp only [connect, ends_bind, ends_closeChannel, ends_modify, ends_tryCatch, ends_throw]
  have hcharted := charted_closed H
  obtain ⟨n, hn, -⟩ := hcharted.node a ha
  rw [← closed_options s] at hhops htime
  refine ends_dial (fun c w h => ?_) fun e w h => by
    cases (dial_eq hn _).symm.trans h
  obtain ⟨-, -, rfl, rfl⟩ := eq_of_dial_ok h
  have hdialed := attending_dialed (s := { s.closed with
    visited := [], subscriptions := ∅, address := a.broker.address }) hcharted ha
    (congrArg Inbox.replies (closed_inbox s))
  refine (ends_bind ..).1 ((register_landed hdialed hareas hhops htime rfl).mono ?_ ?_)
  · rintro _ s₁ ⟨hlanded, hredirects⟩
    refine ⟨hlanded.of_same (closed_id s) (closed_location s), ?_⟩
    rw [← redirects_closed s]
    exact hredirects
  · rintro e s₁ ⟨hnone, rfl, H₁, hsteady⟩
    refine ⟨closed_location s ▸ hnone, rfl, closed_link s₁, ?_⟩
    have hid : s₁.id = s.id := hsteady.id.trans (closed_id s)
    rw [← hid]
    exact H₁.closed

theorem exec_of_ends {x : Action Federation.wire Unit} {Q : Session Federation.wire → Prop}
    {E : SessionError → Session Federation.wire → Prop} (H : Ends s x (fun _ => Q) E) :
    (∃ s', exec x s = (.ok (), s') ∧ Q s') ∨ ∃ e s', exec x s = (.error e, s') ∧ E e s' := by
  rcases hr : exec x s with ⟨e | a, s'⟩
  · exact .inr ⟨e, s', rfl, H.error hr⟩
  · exact .inl ⟨s', rfl, H.ok hr⟩

/-- In every state of a federation, a client in whatever state, with whatever id and location, that
connects to one of its brokers ends at a broker that is responsible for its location, if there is
one. It is redirected once at most and keeps its id, and the broker has it on record with its
location and without subscriptions. If no broker is responsible, connecting fails for this reason,
and no channel is left open. -/
theorem connect_lands {calendar : Nat → Nat} {f : Federation} {acts : List Act} {entry : String}
    (hid : (areas.map (·.broker.id)).Nodup) (haddress : (areas.map (·.broker.address)).Nodup)
    (hf : ofAreas calendar areas = .ok f) (hs : s.wire = f.after acts)
    (hentry : (brokerAt? s.wire entry).isSome) (hhops : 1 ≤ s.options.maxHandoffHops)
    (htime : 0 < s.options.connectTimeout) :
    ((∃ A b, brokerAt? s.wire A = some b ∧ b.atlas.isResponsibleFor s.location) →
      ∃ s', exec (connect entry) s = (.ok (), s') ∧ s'.redirects ≤ s.redirects + 1 ∧
        s'.id = s.id ∧ s'.isConnected ∧ ∃ b, brokerAt? s'.wire s'.address = some b ∧
          b.atlas.isResponsibleFor s.location ∧ b.record? s.id = some ⟨s.location, ∅⟩) ∧
    ((∀ A b, brokerAt? s.wire A = some b → ¬ b.atlas.isResponsibleFor s.location) →
      ∃ s', exec (connect entry) s = (.error .noResponsibleBroker, s') ∧ s'.link = none ∧
        connection? s'.wire entry s.id = none) := by
  have hareas := chartable_of_ofAreas hid hf
  have H : Charted areas s.wire := hs ▸ (charted_ofAreas hid haddress hf).after acts
  have hserves {A : String} {b : Broker} (hb : brokerAt? s.wire A = some b) :
      ∃ a ∈ areas, a.broker.address = A ∧
        (b.atlas.isResponsibleFor s.location ↔ Serves areas a s.location) := by
    obtain ⟨n, hn, rfl⟩ := Option.map_eq_some_iff.1 hb
    obtain ⟨a, ha, rfl⟩ := H.only A n hn
    exact ⟨a, ha, rfl, (H.runs ha hn).atlas ▸ hareas.isResponsibleFor_view ha⟩
  obtain ⟨b, hb⟩ := Option.isSome_iff_exists.1 hentry
  obtain ⟨a, ha, rfl, -⟩ := hserves hb
  rcases exec_of_ends (ends_connect H hareas ha hhops htime) with
    ⟨s', hexec, hlanded, hredirects⟩ | ⟨e, s', hexec, hnone, rfl, hlink, hconnection⟩
  · refine ⟨fun _ => ⟨s', hexec, hredirects, hlanded.id, hlanded.connected, hlanded.broker⟩,
      fun h => ?_⟩
    obtain ⟨a, ha, hresponsible⟩ := hlanded.responsible
    obtain ⟨n, hn, hruns⟩ := H.node a ha
    exact absurd (hruns.atlas ▸ hresponsible) (h _ _ (congrArg (Option.map Node.broker) hn))
  · refine ⟨?_, fun _ => ⟨s', hexec, hlink, hconnection⟩⟩
    rintro ⟨A, b, hb, hresponsible⟩
    obtain ⟨a, ha, -, hiff⟩ := hserves hb
    exact absurd (hiff.1 hresponsible) (hnone a ha)

/-- A client that goes by the name of the root, at the city. -/
def impostor : List Act :=
  [.dial "127.0.0.1:6001" "cloud",
    .send ⟨0, "127.0.0.1:6001", "cloud"⟩ (.connect (some ⟨52.5, 13.4⟩))]

/-- A client of a federation that others acted on before. -/
def guest (id : String) (location : Option Location) (areas : List BrokerArea) (acts : List Act) :
    Session Federation.wire :=
  start id location ⟨1000, 1000, 2000, 1⟩ ((addBrokers areas (empty Nat.succ) areas).after acts)

/-- The root sends the first client on to the city, which takes it in the place of the impostor.
Where there is no root, the second one finds nobody responsible. -/
theorem guests_land :
    (∃ s', exec (connect "127.0.0.1:6000")
        (guest "cloud" (some ⟨52.5, 13.4⟩) cityAndRoot impostor) = (.ok (), s') ∧
        s'.redirects ≤ 1 ∧ s'.id = "cloud" ∧
        ∃ b, brokerAt? s'.wire s'.address = some b ∧
          b.record? "cloud" = some ⟨some ⟨52.5, 13.4⟩, ∅⟩) ∧
    ∃ s', exec (connect "127.0.0.1:6001") (guest "c" none [cityAndRoot[0]] []) =
      (.error .noResponsibleBroker, s') ∧ s'.link = none := by
  have hboth : ofAreas Nat.succ cityAndRoot =
      .ok (addBrokers cityAndRoot (empty Nat.succ) cityAndRoot) :=
    ofAreas_eq Nat.succ ⟨by decide, by decide⟩
  have hcity : ofAreas Nat.succ [cityAndRoot[0]] =
      .ok (addBrokers [cityAndRoot[0]] (empty Nat.succ) [cityAndRoot[0]]) :=
    ofAreas_eq Nat.succ ⟨by decide, by decide⟩
  constructor
  · let s := guest "cloud" (some ⟨52.5, 13.4⟩) cityAndRoot impostor
    have hs : s.wire = (addBrokers cityAndRoot (empty Nat.succ) cityAndRoot).after impostor := rfl
    have hentry : (brokerAt? s.wire "127.0.0.1:6000").isSome := by decide +kernel
    have hserved : (brokerAt? s.wire "127.0.0.1:6001").any
        (·.atlas.isResponsibleFor (some ⟨52.5, 13.4⟩)) := by decide +kernel
    obtain ⟨b, hb, hserved⟩ := (Option.any_eq_true _ _).1 hserved
    obtain ⟨s', hexec, hredirects, hid, -, b', hb', -, hrecord⟩ := (connect_lands (by decide)
      (by decide) hboth hs hentry (by decide) (by decide)).1 ⟨_, b, hb, hserved⟩
    exact ⟨s', hexec, hredirects, hid, b', hb', hrecord⟩
  · let s := guest "c" none [cityAndRoot[0]] []
    have hs : s.wire =
        (addBrokers [cityAndRoot[0]] (empty Nat.succ) [cityAndRoot[0]]).after [] := rfl
    have hentry : (brokerAt? s.wire "127.0.0.1:6001").isSome := by decide +kernel
    have hnobody (A : String) (b : Broker) (hb : brokerAt? s.wire A = some b) :
        ¬ b.atlas.isResponsibleFor none := by
      obtain ⟨n, hn, rfl⟩ := Option.map_eq_some_iff.1 hb
      obtain ⟨a, ha, -, rfl⟩ := ((addBrokers_only _ _ _).2.2 A n hn).resolve_left nofun
      obtain rfl := List.mem_singleton.1 ha
      decide
    obtain ⟨s', hexec, hlink, -⟩ :=
      (connect_lands (by decide) (by decide) hcity hs hentry (by decide) (by decide)).2 hnobody
    exact ⟨s', hexec, hlink⟩

end Session

end Geocast
