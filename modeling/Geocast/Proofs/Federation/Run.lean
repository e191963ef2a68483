import Geocast.Proofs.Broker.Coherence
import Geocast.Proofs.Broker.Responsibility
import Geocast.Proofs.Federation.Delivery

/-! # Runs of a federation

Clients open channels to the brokers of a federation, use them and close them. `Charted` says what
stays true meanwhile: every area has its broker, at its own address and with its own view of the
areas, and every channel is registered at one broker at most, under one client id. A federation
that is built from areas with different ids and addresses is charted (`charted_ofAreas`), and so it
stays (`Charted.after`). -/

namespace Geocast

namespace Federation

variable {areas : List BrokerArea} {f : Federation} {a : BrokerArea} {address c : String} {k : Nat}

/-- The channel registered under a client id at the broker of an address. -/
def connection? (f : Federation) (address c : String) : Option Nat :=
  (f.nodes.get? address).bind (·.connections.get? c)

/-- What clients do to a federation. -/
inductive Act
  | dial (address clientId : String)
  | send (c : FederationChannel) (p : Payload)
  | recv (c : FederationChannel) (budget : Nat)
  | close (c : FederationChannel)

def act (f : Federation) : Act → Federation
  | .dial address clientId => (dial address clientId f).2
  | .send c p => (send c p f).2
  | .recv c budget => (recv c budget f).2
  | .close c => close c f

/-- The federation after clients acted on it, one act after the other. -/
def after (f : Federation) (acts : List Act) : Federation := acts.foldl act f

/-- A node that runs the broker of an area. -/
structure Runs (areas : List BrokerArea) (a : BrokerArea) (n : Node) : Prop where
  atlas : n.broker.atlas = .view areas a
  coherent : n.broker.Coherent

/-- The brokers of a federation are those of the areas, each at its own address, and no channel is
registered twice. Channels are numbered in the order in which they are opened. -/
structure Charted (areas : List BrokerArea) (f : Federation) : Prop where
  node : ∀ a ∈ areas, ∃ n, f.nodes.get? a.broker.address = some n ∧ Runs areas a n
  only : ∀ address n, f.nodes.get? address = some n → ∃ a ∈ areas, a.broker.address = address
  numbered : ∀ {address c k}, f.connection? address c = some k → k < f.opened
  once : ∀ {address c address' c' k}, f.connection? address c = some k →
    f.connection? address' c' = some k → address' = address ∧ c' = c
  mail : ∀ m ∈ f.mail, m.1 < f.opened

/-! ## Looking up after a step -/

theorem connection?_modify {f' : Federation} {g : Node → Node} {address : String}
    (h : f'.nodes = f.nodes.modify address g)
    (hg : ∀ n, (g n).connections = n.connections) (address' c : String) :
    f'.connection? address' c = f.connection? address' c := by
  rw [connection?, connection?, h, Table.get?_modify]
  split
  · cases f.nodes.get? address' with
    | none => rfl
    | some n => exact congrArg (·.get? c) (hg n)
  · rfl

@[simp] theorem handled_connection? (f : Federation) (address : String) (n : Node)
    (sender : String) (p : Payload) (address' c : String) :
    (f.handled address n sender p).connection? address' c = f.connection? address' c :=
  connection?_modify (g := fun n' => { n' with broker := (n.broker.handle sender p).1 }) rfl
    (fun _ => rfl) address' c

@[simp] theorem deliver_connection? (f : Federation) (address sender : String) (p : Payload)
    (address' c : String) :
    (f.deliver address sender p).connection? address' c = f.connection? address' c := by
  cases h : f.nodes.get? address with
  | none => rw [deliver_of_none h]
  | some n => exact connection?_modify (deliver_nodes h sender p) (fun _ => rfl) address' c

theorem mem_routed {connections : Table String Nat} {outgoing : List (String × Payload)}
    {m : Nat × Payload} : m ∈ routed connections outgoing ↔
      ∃ c, (c, m.2) ∈ outgoing ∧ connections.get? c = some m.1 := by
  obtain ⟨k, p⟩ := m
  simp only [routed, List.mem_filterMap, Option.map_eq_some_iff, Prod.mk.injEq, Prod.exists]
  constructor
  · rintro ⟨c, q, hm, n, hn, rfl, rfl⟩
    exact ⟨c, hm, hn⟩
  · rintro ⟨c, hm, hn⟩
    exact ⟨c, p, hm, k, hn, rfl, rfl⟩

theorem connection?_of_get? {n : Node} (h : f.nodes.get? address = some n) (c : String) :
    f.connection? address c = n.connections.get? c := by
  rw [connection?, h, Option.bind_some]

/-- Mail goes to registered channels. -/
theorem connection?_of_mem_routed {n : Node} (h : f.nodes.get? address = some n)
    {out : List (String × Payload)} {m : Nat × Payload} (hm : m ∈ routed n.connections out) :
    ∃ address' c, f.connection? address' c = some m.1 := by
  obtain ⟨c, -, hc⟩ := mem_routed.1 hm
  exact ⟨address, c, (connection?_of_get? h c).trans hc⟩

theorem connection?_of_mem_relayed {sender : String} {t : BrokerInfo × Payload} {m : Nat × Payload}
    (hm : m ∈ f.relayed sender t) : ∃ address c, f.connection? address c = some m.1 := by
  unfold relayed at hm
  split at hm
  · next n hn =>
    obtain ⟨address, -, hget⟩ := Option.bind_eq_some_iff.1 hn
    exact connection?_of_mem_routed hget hm
  · exact nomatch hm

/-! ## What a step keeps -/

theorem Runs.handle {n : Node} (H : Runs areas a n) (sender : String) (p : Payload) :
    Runs areas a { n with broker := (n.broker.handle sender p).1 } where
  atlas := (n.broker.handle_change sender p).atlas.trans H.atlas
  coherent := H.coherent.change (n.broker.handle_change sender p)

namespace Charted

theorem runs (H : Charted areas f) (ha : a ∈ areas) {n : Node}
    (hn : f.nodes.get? a.broker.address = some n) : Runs areas a n := by
  obtain ⟨n', hn', hr⟩ := H.node a ha
  obtain rfl := Option.some.inj (hn.symm.trans hn')
  exact hr

theorem eq_of_address (H : Charted areas f) {b : BrokerArea} (ha : a ∈ areas) (hb : b ∈ areas)
    (h : a.broker.address = b.broker.address) : a = b := by
  obtain ⟨n, hn, hr⟩ := H.node a ha
  have hatlas : Atlas.view areas a = Atlas.view areas b :=
    hr.atlas.symm.trans (H.runs hb (h ▸ hn)).atlas
  exact congrArg Atlas.own hatlas

/-- One node may change as long as it goes on running its broker. -/
theorem modify (H : Charted areas f) (f' : Federation) {g : Node → Node}
    (h : f'.nodes = f.nodes.modify address g)
    (hg : ∀ a n, f.nodes.get? address = some n → Runs areas a n → Runs areas a (g n)) :
    (∀ a ∈ areas, ∃ n, f'.nodes.get? a.broker.address = some n ∧ Runs areas a n) ∧
    ∀ address n, f'.nodes.get? address = some n → ∃ a ∈ areas, a.broker.address = address := by
  simp only [h, Table.get?_modify]
  refine ⟨fun a ha => ?_, fun address' n hn => ?_⟩
  · obtain ⟨n, hn, hr⟩ := H.node a ha
    split
    · next he => exact ⟨g n, by rw [hn]; rfl, hg a n (he ▸ hn) hr⟩
    · exact ⟨n, hn, hr⟩
  · split at hn
    · obtain ⟨n', hn', -⟩ := Option.map_eq_some_iff.1 hn
      exact H.only address' n' hn'
    · exact H.only address' n hn

theorem handled (H : Charted areas f) {n : Node} (hn : f.nodes.get? address = some n)
    (sender : String) (p : Payload) : Charted areas (f.handled address n sender p) := by
  obtain ⟨hnode, honly⟩ := H.modify (f.handled address n sender p)
    (g := fun n' => { n' with broker := (n.broker.handle sender p).1 }) rfl fun a n' hn' hr => by
      obtain rfl := Option.some.inj (hn.symm.trans hn')
      exact hr.handle sender p
  refine ⟨hnode, honly, fun hc => ?_, fun hc hc' => ?_, fun m hm => ?_⟩
  · rw [handled_connection?] at hc
    exact H.numbered hc
  · rw [handled_connection?] at hc hc'
    exact H.once hc hc'
  · rcases List.mem_append.1 hm with hm | hm
    · exact H.mail m hm
    · obtain ⟨_, _, hc⟩ := connection?_of_mem_routed hn hm
      exact H.numbered hc

/-- A delivery adds no more than mail to what the broker itself does. -/
theorem deliver (H : Charted areas f) (address sender : String) (p : Payload) :
    Charted areas (f.deliver address sender p) := by
  cases h : f.nodes.get? address with
  | none => rwa [deliver_of_none h]
  | some n =>
    have H' := H.handled h sender p
    rw [Federation.deliver, deliverWithin_eq 0 h]
    refine ⟨H'.node, H'.only, H'.numbered, H'.once, fun m hm => ?_⟩
    rcases List.mem_append.1 hm with hm | hm
    · exact H'.mail m hm
    · obtain ⟨t, -, hm⟩ := List.mem_flatMap.1 hm
      obtain ⟨_, _, hc⟩ := connection?_of_mem_relayed hm
      exact H'.numbered hc

theorem send (H : Charted areas f) (channel : FederationChannel) (p : Payload) :
    Charted areas (Federation.send channel p f).2 :=
  H.deliver channel.address channel.clientId p

theorem recv (H : Charted areas f) (channel : FederationChannel) (budget : Nat) :
    Charted areas (Federation.recv channel budget f).2 := by
  unfold Federation.recv
  split
  · exact ⟨H.node, H.only, H.numbered, H.once, fun m hm => H.mail m (List.mem_of_mem_eraseP hm)⟩
  · exact ⟨H.node, H.only, H.numbered, H.once, H.mail⟩

end Charted

/-- The federation in which a new channel is registered under a client id. -/
def registered (f : Federation) (address c : String) : Federation :=
  { f with
    nodes := f.nodes.modify address fun n =>
      { n with connections := n.connections.insert c f.opened }
    opened := f.opened + 1 }

/-- The federation in which no channel is registered under a client id. -/
def unregistered (f : Federation) (address c : String) : Federation :=
  { f with
    nodes := f.nodes.modify address fun n => { n with connections := n.connections.erase c } }

theorem dial_eq {n : Node} (h : f.nodes.get? address = some n) (c : String) :
    Federation.dial address c f = (.ok ⟨f.opened, address, c⟩, f.registered address c) := by
  rw [Federation.dial, h]
  rfl

theorem dial_of_none (h : f.nodes.get? address = none) (c : String) :
    (Federation.dial address c f).2 = f := by
  rw [Federation.dial, h]

theorem eq_of_dial_ok {w : Federation} {channel : FederationChannel}
    (h : Federation.dial address c f = (.ok channel, w)) :
    ∃ n, f.nodes.get? address = some n ∧ channel = ⟨f.opened, address, c⟩ ∧
      w = f.registered address c := by
  cases hn : f.nodes.get? address with
  | none =>
    rw [Federation.dial, hn] at h
    exact nomatch h
  | some n =>
    obtain ⟨hchannel, hw⟩ := Prod.mk.inj ((dial_eq hn c).symm.trans h)
    exact ⟨n, rfl, (Except.ok.inj hchannel).symm, hw.symm⟩

theorem eq_of_dial_error {w : Federation} {e : SessionError}
    (h : Federation.dial address c f = (.error e, w)) : w = f := by
  cases hn : f.nodes.get? address with
  | none =>
    have hsame := dial_of_none hn c
    rw [h] at hsame
    exact hsame
  | some n => exact nomatch (dial_eq hn c).symm.trans h

theorem close_cases (channel : FederationChannel) (f : Federation) : close channel f = f ∨
    f.connection? channel.address channel.clientId = some channel.number ∧
      close channel f = (f.unregistered channel.address channel.clientId).deliver channel.address
        channel.clientId (.disconnect .normalDisconnection none) := by
  unfold close
  split
  · exact .inl rfl
  · next n hn =>
    split
    · next hc => exact .inr ⟨(connection?_of_get? hn _).trans hc, rfl⟩
    · exact .inl rfl

theorem connection?_registered {n : Node} (h : f.nodes.get? address = some n)
    (c address' c' : String) : (f.registered address c).connection? address' c' =
      if address = address' ∧ c = c' then some f.opened else f.connection? address' c' := by
  simp only [connection?, registered, Table.get?_modify]
  by_cases ha : address = address'
  · subst ha
    simp [h, Table.get?_insert]
  · simp [ha]

theorem connection?_unregistered (f : Federation) (address c address' c' : String) :
    (f.unregistered address c).connection? address' c' =
      if address = address' ∧ c = c' then none else f.connection? address' c' := by
  simp only [connection?, unregistered, Table.get?_modify]
  by_cases ha : address = address'
  · subst ha
    cases f.nodes.get? address <;> simp [Table.get?_erase]
  · simp [ha]

namespace Charted

theorem registered (H : Charted areas f) {n : Node} (h : f.nodes.get? address = some n)
    (c : String) : Charted areas (f.registered address c) := by
  obtain ⟨hnode, honly⟩ := H.modify (f.registered address c)
    (g := fun n => { n with connections := n.connections.insert c f.opened }) rfl
    fun _ _ _ hr => ⟨hr.atlas, hr.coherent⟩
  have hnew {address' c' k} (hc : (f.registered address c).connection? address' c' = some k) :
      (address = address' ∧ c = c') ∧ k = f.opened ∨ f.connection? address' c' = some k := by
    rw [connection?_registered h] at hc
    split at hc
    · next he => exact .inl ⟨he, (Option.some.inj hc).symm⟩
    · exact .inr hc
  refine ⟨hnode, honly, fun hc => ?_, fun hc hc' => ?_, fun m hm => ?_⟩
  · rcases hnew hc with ⟨-, rfl⟩ | hc
    · exact Nat.lt_succ_self _
    · exact Nat.lt_succ_of_lt (H.numbered hc)
  · rcases hnew hc with ⟨⟨rfl, rfl⟩, rfl⟩ | hc <;> rcases hnew hc' with ⟨⟨rfl, rfl⟩, hk⟩ | hc'
    · exact ⟨rfl, rfl⟩
    · exact absurd (H.numbered hc') (Nat.lt_irrefl _)
    · exact absurd (hk ▸ H.numbered hc) (Nat.lt_irrefl _)
    · exact H.once hc hc'
  · exact Nat.lt_succ_of_lt (H.mail m hm)

theorem unregistered (H : Charted areas f) (address c : String) :
    Charted areas (f.unregistered address c) := by
  obtain ⟨hnode, honly⟩ := H.modify (f.unregistered address c)
    (g := fun n => { n with connections := n.connections.erase c }) rfl
    fun _ _ _ hr => ⟨hr.atlas, hr.coherent⟩
  have hold {address' c' k} (hc : (f.unregistered address c).connection? address' c' = some k) :
      f.connection? address' c' = some k := by
    rw [connection?_unregistered] at hc
    exact (Option.ite_none_left_eq_some.1 hc).2
  exact ⟨hnode, honly, fun hc => H.numbered (hold hc), fun hc hc' => H.once (hold hc) (hold hc'),
    H.mail⟩

theorem dial (H : Charted areas f) (address c : String) :
    Charted areas (Federation.dial address c f).2 := by
  cases h : f.nodes.get? address with
  | none => rwa [dial_of_none h]
  | some n => exact dial_eq h c ▸ H.registered h c

theorem close (H : Charted areas f) (channel : FederationChannel) :
    Charted areas (Federation.close channel f) := by
  rcases close_cases channel f with h | ⟨-, h⟩ <;> rw [h]
  · exact H
  · exact (H.unregistered ..).deliver ..

theorem act (H : Charted areas f) (x : Act) : Charted areas (f.act x) := by
  cases x with
  | dial address c => exact H.dial address c
  | send channel p => exact H.send channel p
  | recv channel budget => exact H.recv channel budget
  | close channel => exact H.close channel

theorem after (H : Charted areas f) (acts : List Act) : Charted areas (f.after acts) := by
  induction acts generalizing f with
  | nil => exact H
  | cons x acts ih => exact ih (H.act x)

end Charted

/-! ## Federations built from areas -/

/-- The node that a federation begins with for an area. -/
def freshNode (areas : List BrokerArea) (a : BrokerArea) : Node :=
  ⟨.start (.view areas a) CallConvention.standard.policy, ∅⟩

/-- Adds the brokers of some of the areas. -/
def addBrokers (areas : List BrokerArea) (f : Federation) (l : List BrokerArea) : Federation :=
  l.foldl (fun f a => f.addBroker (freshNode areas a).broker) f

theorem addBrokers_only (areas : List BrokerArea) (l : List BrokerArea) (f : Federation) :
    (addBrokers areas f l).opened = f.opened ∧ (addBrokers areas f l).mail = f.mail ∧
    ∀ address n, (addBrokers areas f l).nodes.get? address = some n →
      f.nodes.get? address = some n ∨
        ∃ a ∈ l, a.broker.address = address ∧ n = freshNode areas a := by
  induction l generalizing f with
  | nil => exact ⟨rfl, rfl, fun _ _ h => .inl h⟩
  | cons a l ih =>
    obtain ⟨hopened, hmail, hnodes⟩ := ih (f.addBroker (freshNode areas a).broker)
    refine ⟨hopened, hmail, fun address n hn => ?_⟩
    rcases hnodes address n hn with hn | ⟨b, hb, hba, hn⟩
    · rw [addBroker, Table.get?_insert] at hn
      split at hn
      · next ha => exact .inr ⟨a, List.mem_cons_self, ha, (Option.some.inj hn).symm⟩
      · exact .inl hn
    · exact .inr ⟨b, List.mem_cons_of_mem a hb, hba, hn⟩

theorem addBrokers_other {l : List BrokerArea} (h : address ∉ l.map (·.broker.address)) :
    (addBrokers areas f l).nodes.get? address = f.nodes.get? address := by
  induction l generalizing f with
  | nil => rfl
  | cons a l ih =>
    rw [List.map_cons, List.mem_cons, not_or] at h
    refine (ih h.2).trans ?_
    exact (Table.get?_insert ..).trans (if_neg (Ne.symm h.1))

theorem addBrokers_get? {l : List BrokerArea} (hl : (l.map (·.broker.address)).Nodup) (ha : a ∈ l) :
    (addBrokers areas f l).nodes.get? a.broker.address = some (freshNode areas a) := by
  induction l generalizing f with
  | nil => exact nomatch ha
  | cons b l ih =>
    obtain ⟨hb, hl⟩ := List.nodup_cons.1 hl
    rcases List.mem_cons.1 ha with rfl | ha
    · refine (addBrokers_other hb).trans ?_
      exact (Table.get?_insert ..).trans (if_pos rfl)
    · exact ih hl ha

theorem foldlM_ofAreas {l : List BrokerArea} (H : Chartable areas) (hl : ∀ a ∈ l, a ∈ areas)
    (f : Federation) :
    (l.foldlM (fun f a => do
      let atlas ← Atlas.ofAreas a.broker.id areas
      return f.addBroker (.start atlas CallConvention.standard.policy)) f : Except AtlasError _) =
      .ok (addBrokers areas f l) := by
  induction l generalizing f with
  | nil => rfl
  | cons a l ih =>
    obtain ⟨ha, hl⟩ := List.forall_mem_cons.1 hl
    rw [List.foldlM_cons, H.ofAreas_eq ha]
    exact ih hl _

/-- Areas with different ids that a federation is built from have one root at most. -/
theorem chartable_of_ofAreas {calendar : Nat → Nat} (hid : (areas.map (·.broker.id)).Nodup)
    (h : ofAreas calendar areas = .ok f) : Chartable areas := by
  refine ⟨hid, ?_⟩
  by_contra hroots
  cases areas with
  | nil => exact hroots (Nat.zero_le 1)
  | cons a areas =>
    rw [ofAreas, List.foldlM_cons, Atlas.ofAreas, if_pos (Nat.lt_of_not_le hroots)] at h
    cases h

theorem ofAreas_eq (calendar : Nat → Nat) (H : Chartable areas) :
    ofAreas calendar areas = .ok (addBrokers areas (empty calendar) areas) :=
  foldlM_ofAreas H (fun _ h => h) _

theorem charted_ofAreas {calendar : Nat → Nat} (hid : (areas.map (·.broker.id)).Nodup)
    (haddress : (areas.map (·.broker.address)).Nodup) (h : ofAreas calendar areas = .ok f) :
    Charted areas f := by
  rw [ofAreas_eq calendar (chartable_of_ofAreas hid h)] at h
  obtain rfl := Except.ok.inj h
  obtain ⟨-, hmail, honly⟩ := addBrokers_only areas areas (empty calendar)
  have hfresh {address n}
      (hn : (addBrokers areas (empty calendar) areas).nodes.get? address = some n) :
      ∃ a ∈ areas, a.broker.address = address ∧ n = freshNode areas a :=
    (honly address n hn).resolve_left nofun
  have hnone (address c : String) :
      (addBrokers areas (empty calendar) areas).connection? address c = none := by
    rw [connection?]
    cases hn : (addBrokers areas (empty calendar) areas).nodes.get? address with
    | none => rfl
    | some n =>
      obtain ⟨a, -, -, rfl⟩ := hfresh hn
      rfl
  refine ⟨fun a ha => ⟨_, addBrokers_get? haddress ha, rfl, Broker.coherent_start _ _⟩,
    fun address n hn => ?_, fun hc => ?_, fun hc => ?_, fun m hm => ?_⟩
  · obtain ⟨a, ha, haa, -⟩ := hfresh hn
    exact ⟨a, ha, haa⟩
  · exact nomatch (hnone _ _).symm.trans hc
  · exact nomatch (hnone _ _).symm.trans hc
  · rw [hmail] at hm
    exact nomatch hm

/-! ## Finding a broker by its id -/

/-- A broker is found under its id at the address of its area. -/
theorem Charted.addressOf? (H : Charted areas f) (hid : (areas.map (·.broker.id)).Nodup)
    (ha : a ∈ areas) : f.addressOf? a.broker.id = some a.broker.address := by
  obtain ⟨n, hn, hr⟩ := H.node a ha
  have hbroker : n.broker.id = a.broker.id := by rw [Broker.id, hr.atlas]; rfl
  obtain ⟨e, he⟩ := Option.isSome_iff_exists.1 (List.find?_isSome.2
    ⟨(a.broker.address, n), Table.mem_entries_iff.2 hn, by simpa using hbroker⟩ :
      (f.nodes.entries.find? fun e => e.2.broker.id = a.broker.id).isSome)
  rw [Federation.addressOf?, he, Option.map_some]
  have hget : f.nodes.get? e.1 = some e.2 :=
    Table.mem_entries_iff.1 (List.mem_of_find?_eq_some he)
  obtain ⟨a', ha', haddress⟩ := H.only _ _ hget
  obtain ⟨n', hn', hr'⟩ := H.node a' ha'
  -- the broker that was found belongs to an area with the same id
  have hsame : a'.broker.id = a.broker.id := by
    have hn' : n' = e.2 := Option.some.inj (hn'.symm.trans (haddress ▸ hget))
    have hfound : e.2.broker.id = a.broker.id := by simpa using List.find?_some he
    rw [← hfound, ← hn', Broker.id, hr'.atlas]
    rfl
  obtain rfl : a' = a := List.inj_on_of_nodup_map hid ha' ha hsame
  rw [haddress]

end Federation

end Geocast
