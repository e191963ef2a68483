import Geocast.Proofs.Federation.Standing
import Mathlib.Data.List.Find

/-! # Replies go to who asked

A federation sends replies by name: to the channel that is registered under the id of who sent the
request. So the channels opened at a node under an id are delivered no more replies than requests
are sent through them, unless a broker goes by that id. The acknowledgements of what such a broker
forwards to the node go there as well, and they are all that comes in addition
(`replies_le_requests`). -/

namespace Geocast

theorem Atlas.own_of_ofAreas {id : String} {areas : List BrokerArea} {a : Atlas}
    (h : Atlas.ofAreas id areas = .ok a) : a.own.broker.id = id := by
  unfold Atlas.ofAreas at h
  split at h
  · cases h
  · split at h
    · cases h
    · next own hown =>
      cases h
      simpa using List.find?_some hown

namespace Federation

variable {areas : List BrokerArea} {f : Federation} {x : Act} {acts : List Act}
  {ch : FederationChannel} {all : List FederationChannel} {A B c : String} {k : Nat}

/-! ## What a run opens and delivers -/

/-- The channel that an act opens. -/
def opens? (f : Federation) : Act → Option FederationChannel
  | .dial address c => (dial address c f).1.toOption
  | _ => none

/-- The channels that a run opens. -/
def channels (f : Federation) : List Act → List FederationChannel
  | [] => []
  | x :: acts => (f.opens? x).toList ++ (f.act x).channels acts

/-- The payloads that a run delivers, with the numbers of their channels. -/
def deliveries (f : Federation) : List Act → List (Nat × Payload)
  | [] => []
  | x :: acts => (f.act x).mail.drop f.mail.length ++ (f.act x).deliveries acts

/-- Whether a delivery is no publication and goes to a channel opened at `A` under `c`. -/
def isReply (all : List FederationChannel) (A c : String) (m : Nat × Payload) : Bool :=
  m.2.kind ≠ .publish && all.any fun ch => ch.number = m.1 && ch.address = A && ch.clientId = c

/-- The replies that a run delivers to channels opened at `A` under `c`. -/
def replies (f : Federation) (acts : List Act) (A c : String) : Nat :=
  (f.deliveries acts).countP (isReply (f.channels acts) A c)

/-- Whether an act sends a request through a channel to `A` under `c`. -/
def Act.asks (A c : String) : Act → Bool
  | .send ch p => ch.address = A && ch.clientId = c && p.ackKind?.isSome
  | _ => false

/-- The publications that an act makes the broker `c` forward to the node at `A`. -/
def forwardsTo (f : Federation) (A c : String) : Act → Nat
  | .send ch p =>
    match f.nodes.get? ch.address with
    | some n =>
      if n.broker.id = c then
        (n.broker.handle ch.clientId p).2.forwards.countP fun t => f.addressOf? t.1.id = some A
      else 0
    | none => 0
  | _ => 0

/-- The publications that the broker `c` forwards to the node at `A` in a run. -/
def forwarded (f : Federation) (A c : String) : List Act → Nat
  | [] => 0
  | x :: acts => f.forwardsTo A c x + (f.act x).forwarded A c acts

/-! ## Channels are numbered -/

theorem eq_of_opens? (h : f.opens? x = some ch) :
    ch.number = f.opened ∧ (f.act x).opened = f.opened + 1 := by
  cases x with
  | dial address c =>
    obtain ⟨r, w, hdial⟩ : ∃ r w, Federation.dial address c f = (r, w) := ⟨_, _, rfl⟩
    rw [opens?, hdial] at h
    cases r with
    | error e => cases h
    | ok ch' =>
      cases h
      obtain ⟨-, -, rfl, rfl⟩ := eq_of_dial_ok hdial
      exact ⟨rfl, by rw [act, hdial]; rfl⟩
  | _ => cases h

theorem opened_le_act (f : Federation) (x : Act) : f.opened ≤ (f.act x).opened := by
  cases x with
  | dial address c =>
    cases hn : f.nodes.get? address with
    | none => rw [act, dial_of_none hn]
    | some n =>
      rw [act, dial_eq hn]
      exact Nat.le_succ _
  | send ch p => exact Nat.le_of_eq (deliver_opened f ch.address ch.clientId p).symm
  | recv ch budget => exact Nat.le_of_eq (recv_drained ch budget f).opened.symm
  | close ch =>
    rcases close_cases ch f with h | ⟨-, h⟩ <;> rw [act, h]
    rw [deliver_opened]
    exact Nat.le_refl _

theorem opened_le_channels (acts : List Act) (f : Federation) :
    ∀ ch ∈ f.channels acts, f.opened ≤ ch.number := by
  induction acts generalizing f with
  | nil => exact List.forall_mem_nil _
  | cons x acts ih =>
    intro ch hch
    rcases List.mem_append.1 hch with hch | hch
    · exact Nat.le_of_eq (eq_of_opens? (Option.mem_toList.1 hch)).1.symm
    · exact Nat.le_trans (opened_le_act f x) (ih (f.act x) ch hch)

/-- No two channels have the same number. -/
theorem nodup_channels (acts : List Act) (f : Federation) :
    ((f.channels acts).map (·.number)).Nodup := by
  induction acts generalizing f with
  | nil => exact .nil
  | cons x acts ih =>
    rw [channels, List.map_append]
    refine List.nodup_append.2 ⟨?_, ih (f.act x), ?_⟩
    · cases f.opens? x <;> simp
    · simp only [List.forall_mem_map]
      intro ch hch ch' hch'
      obtain ⟨hnumber, hopened⟩ := eq_of_opens? (Option.mem_toList.1 hch)
      have hle := opened_le_channels acts (f.act x) ch' hch'
      omega

/-! ## Channels are registered as they were opened -/

/-- A list of channels with different numbers has every registered one, with the address and the id
under which it is registered. -/
structure Listed (all : List FederationChannel) (f : Federation) : Prop where
  unique : ∀ ch ∈ all, ∀ ch' ∈ all, ch.number = ch'.number → ch = ch'
  registered : ∀ {A c k}, f.connection? A c = some k → ⟨k, A, c⟩ ∈ all

theorem connection?_act (h : (f.act x).connection? A c = some k) :
    f.connection? A c = some k ∨ f.opens? x = some ⟨k, A, c⟩ := by
  cases x with
  | dial address c' =>
    cases hn : f.nodes.get? address with
    | none =>
      rw [act, dial_of_none hn] at h
      exact .inl h
    | some n =>
      rw [act, dial_eq hn, connection?_registered hn] at h
      split at h
      · next hsame =>
        obtain ⟨rfl, rfl⟩ := hsame
        cases h
        exact .inr (by rw [opens?, dial_eq hn]; rfl)
      · exact .inl h
  | send ch p => exact .inl ((deliver_connection? ..).symm.trans h)
  | recv ch budget => exact .inl (((recv_drained ch budget f).connection? A c).symm.trans h)
  | close ch =>
    rcases close_cases ch f with hclose | ⟨-, hclose⟩ <;> rw [act, hclose] at h
    · exact .inl h
    · rw [deliver_connection?, connection?_unregistered] at h
      exact .inl (Option.ite_none_left_eq_some.1 h).2

theorem Listed.act (H : Listed all f) (hx : ∀ ch, f.opens? x = some ch → ch ∈ all) :
    Listed all (f.act x) :=
  ⟨H.unique, fun h => (connection?_act h).elim H.registered (hx _)⟩

theorem Listed.handled (H : Listed all f) (address : String) (n : Node) (sender : String)
    (p : Payload) : Listed all (f.handled address n sender p) :=
  ⟨H.unique, fun h => H.registered ((handled_connection? ..).symm.trans h)⟩

/-! ## What one payload brings about -/

/-- What goes to a registered channel is a reply to the channels opened as that one was. -/
theorem Listed.of_isReply (H : Listed all f) {m : Nat × Payload} {y : String}
    (hm : f.connection? B y = some m.1) (h : isReply all A c m) :
    m.2.kind ≠ .publish ∧ B = A ∧ y = c := by
  simp only [isReply, Bool.and_eq_true, decide_eq_true_eq, List.any_eq_true] at h
  obtain ⟨hkind, ch, hch, ⟨hnumber, rfl⟩, rfl⟩ := h
  cases H.unique _ (H.registered hm) ch hch hnumber.symm
  exact ⟨hkind, rfl, rfl⟩

/-- A broker replies to a payload once, and to its sender. -/
theorem countP_routed_le (H : Listed all f) {n : Node} (hn : f.nodes.get? B = some n)
    (sender : String) (p : Payload) :
    (routed n.connections (n.broker.handle sender p).2.outgoing).countP (isReply all A c) ≤
      if B = A ∧ sender = c ∧ p.ackKind?.isSome then 1 else 0 := by
  cases hack : p.ackKind? with
  | none =>
    rw [n.broker.handle_unanswered sender hack]
    exact Nat.zero_le _
  | some kind =>
    obtain ⟨r, ⟨copies, hout, -, hcopies⟩, -⟩ :=
      n.broker.handle_replied sender (Option.isSome_of_eq_some hack)
    have hnone : (routed n.connections copies).countP (isReply all A c) = 0 := by
      refine List.countP_eq_zero.2 fun m hm hreply => ?_
      obtain ⟨y, hy, hc⟩ := mem_routed.1 hm
      obtain ⟨q, -, hq⟩ := hcopies _ hy
      exact (H.of_isReply ((connection?_of_get? hn y).trans hc) hreply).1
        (congrArg Payload.kind hq)
    rw [hout, routed, List.filterMap_append, List.countP_append]
    rw [routed] at hnone
    rw [hnone, Nat.zero_add]
    cases hc : n.connections.get? sender with
    | none => simp [hc]
    | some k =>
      simp only [List.filterMap_cons, List.filterMap_nil, hc, Option.map_some,
        List.countP_singleton]
      split
      · next hreply =>
        obtain ⟨-, rfl, rfl⟩ := H.of_isReply ((connection?_of_get? hn sender).trans hc) hreply
        simp
      · exact Nat.zero_le _

/-- A forward is acknowledged once, to the broker that it comes from. -/
theorem countP_relayed_le (H : Listed all f) (sender : String) (t : BrokerInfo × Payload) :
    (f.relayed sender t).countP (isReply all A c) ≤
      if sender = c ∧ f.addressOf? t.1.id = some A then 1 else 0 := by
  unfold relayed
  split
  · next n hn =>
    obtain ⟨B, hB, hn⟩ := Option.bind_eq_some_iff.1 hn
    refine Nat.le_trans (countP_routed_le H hn sender t.2) ?_
    rw [hB]
    split
    · next h => rw [if_pos ⟨h.2.1, congrArg some h.1⟩]
    · exact Nat.zero_le _
  · exact Nat.zero_le _

theorem countP_flatMap_relayed_le (H : Listed all f) (sender : String)
    (ts : List (BrokerInfo × Payload)) :
    (ts.flatMap (f.relayed sender)).countP (isReply all A c) ≤
      if sender = c then ts.countP fun t => f.addressOf? t.1.id = some A else 0 := by
  induction ts with
  | nil => exact Nat.zero_le _
  | cons t ts ih =>
    have ht := countP_relayed_le H sender t (A := A) (c := c)
    rw [List.flatMap_cons, List.countP_append]
    by_cases hsender : sender = c
    · simp only [hsender, true_and, if_true, List.countP_cons, decide_eq_true_eq] at ht ih ⊢
      omega
    · simp only [hsender, false_and, if_false] at ht ih ⊢
      omega

/-- A broker is found at the same address after it processed a payload. -/
theorem addressOf?_handled {n : Node} (hn : f.nodes.get? B = some n) (sender : String) (p : Payload)
    (id : String) : (f.handled B n sender p).addressOf? id = f.addressOf? id := by
  simp only [addressOf?, handled, Table.modify, List.find?_map, Option.map_map]
  have hsame : f.nodes.entries.find? ((fun e => decide (e.2.broker.id = id)) ∘ fun e =>
        if e.1 = B then (e.1, { e.2 with broker := (n.broker.handle sender p).1 }) else e) =
      f.nodes.entries.find? fun e => e.2.broker.id = id := by
    refine List.find?_congr fun e he => ?_
    obtain ⟨address, n'⟩ := e
    simp only [Function.comp]
    split
    · next haddress =>
      subst haddress
      obtain rfl := Option.some.inj (hn.symm.trans (Table.mem_entries_iff.1 he))
      rw [Broker.handle_id]
    · rfl
  rw [hsame]
  congr 1
  funext e
  simp only [Function.comp]
  split <;> rfl

/-- What an act puts on its way. -/
theorem mail_send (ch : FederationChannel) (p : Payload) {n : Node}
    (hn : f.nodes.get? ch.address = some n) : (f.act (.send ch p)).mail.drop f.mail.length =
      routed n.connections (n.broker.handle ch.clientId p).2.outgoing ++
        (n.broker.handle ch.clientId p).2.forwards.flatMap
          ((f.handled ch.address n ch.clientId p).relayed n.broker.id) := by
  rw [act, send, deliver_mail hn, List.drop_left]

/-- Without a request nothing is put on its way. -/
theorem mail_act_of_not_send (hx : ∀ ch p, x ≠ .send ch p) :
    (f.act x).mail.drop f.mail.length = [] := by
  refine List.drop_eq_nil_of_le ?_
  cases x with
  | send ch p => exact absurd rfl (hx ch p)
  | dial address c =>
    cases hn : f.nodes.get? address with
    | none => rw [act, dial_of_none hn]
    | some n =>
      rw [act, dial_eq hn]
      exact Nat.le_refl _
  | recv ch budget =>
    rw [act, recv]
    split
    · exact List.length_eraseP_le
    · exact Nat.le_refl _
  | close ch =>
    rcases close_cases ch f with h | ⟨-, h⟩ <;> rw [act, h]
    generalize hg : f.unregistered ch.address ch.clientId = g
    have hmail : g.mail = f.mail := hg ▸ rfl
    cases hn : g.nodes.get? ch.address with
    | none => rw [deliver_of_none hn, hmail]
    | some n =>
      rw [deliver_mail hn, n.broker.handle_unanswered ch.clientId rfl, hmail]
      exact Nat.le_of_eq (congrArg _ (List.append_nil _))

/-- An act delivers no more replies than it is asked for, but for the acknowledgements of forwards.
-/
theorem countP_act_le (H : Listed all f) (x : Act) :
    ((f.act x).mail.drop f.mail.length).countP (isReply all A c) ≤
      (if x.asks A c then 1 else 0) + f.forwardsTo A c x := by
  cases x with
  | send ch p =>
    cases hn : f.nodes.get? ch.address with
    | none =>
      rw [act, send, deliver_of_none hn, List.drop_length]
      exact Nat.zero_le _
    | some n =>
      have hreply := countP_routed_le H hn ch.clientId p (A := A) (c := c)
      have hrelayed := countP_flatMap_relayed_le (H.handled ch.address n ch.clientId p) n.broker.id
        (n.broker.handle ch.clientId p).2.forwards (A := A) (c := c)
      simp only [addressOf?_handled hn] at hrelayed
      rw [mail_send ch p hn, List.countP_append]
      simp only [Act.asks, forwardsTo, hn, Bool.and_eq_true, decide_eq_true_eq, and_assoc]
      exact Nat.add_le_add hreply hrelayed
  | _ =>
    rw [mail_act_of_not_send (fun _ _ h => by cases h)]
    exact Nat.zero_le _

/-- A run delivers no more replies than it asks for, but for the acknowledgements of forwards. -/
theorem countP_deliveries_le (acts : List Act) (H : Listed all f)
    (hacts : ∀ ch ∈ f.channels acts, ch ∈ all) : (f.deliveries acts).countP (isReply all A c) ≤
      acts.countP (·.asks A c) + f.forwarded A c acts := by
  -- `all` stays the same along the run: what goes to channels opened earlier still counts
  induction acts generalizing f with
  | nil => exact Nat.zero_le _
  | cons x acts ih =>
    have hopens (ch) (h : f.opens? x = some ch) : ch ∈ all :=
      hacts ch (List.mem_append_left _ (Option.mem_toList.2 h))
    have hx := countP_act_le H x (A := A) (c := c)
    have hrest := ih (H.act hopens) fun ch h => hacts ch (List.mem_append_right _ h)
    rw [deliveries, List.countP_append, List.countP_cons, forwarded]
    omega

/-! ## Who runs the nodes -/

/-- Every node runs a broker under the id of an area. -/
def Staffed (areas : List BrokerArea) (f : Federation) : Prop :=
  ∀ address n, f.nodes.get? address = some n → ∃ a ∈ areas, n.broker.id = a.broker.id

theorem Staffed.modify (H : Staffed areas f) {f' : Federation} {g : Node → Node} {address : String}
    (h : f'.nodes = f.nodes.modify address g)
    (hg : ∀ n, f.nodes.get? address = some n → (g n).broker.id = n.broker.id) :
    Staffed areas f' := by
  intro address' n' hn'
  rw [h, Table.get?_modify] at hn'
  split at hn'
  · next haddress =>
    subst haddress
    obtain ⟨n, hn, rfl⟩ := Option.map_eq_some_iff.1 hn'
    rw [hg n hn]
    exact H address n hn
  · exact H address' n' hn'

theorem Staffed.deliver (H : Staffed areas f) (address sender : String) (p : Payload) :
    Staffed areas (f.deliver address sender p) := by
  cases hn : f.nodes.get? address with
  | none => rwa [deliver_of_none hn]
  | some n =>
    refine H.modify (deliver_nodes hn sender p) fun n' hn' => ?_
    cases hn.symm.trans hn'
    exact Broker.handle_id ..

theorem Staffed.act (H : Staffed areas f) (x : Act) : Staffed areas (f.act x) := by
  cases x with
  | dial address c =>
    cases hn : f.nodes.get? address with
    | none => rwa [Federation.act, dial_of_none hn]
    | some n =>
      rw [Federation.act, dial_eq hn]
      exact H.modify
        (g := fun n => { n with connections := n.connections.insert c f.opened }) rfl fun _ _ => rfl
  | send ch p => exact H.deliver ch.address ch.clientId p
  | recv ch budget =>
    exact fun address n hn => H address n ((recv_drained ch budget f).nodes ▸ hn)
  | close ch =>
    rcases close_cases ch f with h | ⟨-, h⟩ <;> rw [Federation.act, h]
    · exact H
    · refine Staffed.deliver ?_ ch.address ch.clientId (.disconnect .normalDisconnection none)
      exact H.modify (g := fun n => { n with connections := n.connections.erase ch.clientId }) rfl
        fun _ _ => rfl

/-- Only brokers forward publications. -/
theorem Staffed.forwarded (H : Staffed areas f) (hc : Outsider areas c) (acts : List Act) :
    f.forwarded A c acts = 0 := by
  induction acts generalizing f with
  | nil => rfl
  | cons x acts ih =>
    refine Nat.add_eq_zero_iff.2 ⟨?_, ih (H.act x)⟩
    unfold forwardsTo
    split
    · split
      · next n hn =>
        obtain ⟨a, ha, hid⟩ := H _ n hn
        exact if_neg (hid ▸ hc a ha)
      · rfl
    · rfl

/-- A federation for some areas, in which no channel was opened yet. -/
structure Fresh (areas : List BrokerArea) (f : Federation) : Prop where
  staffed : Staffed areas f
  unconnected : ∀ address n, f.nodes.get? address = some n → n.connections = ∅

theorem Fresh.addBroker (H : Fresh areas f) {b : Broker} (hb : ∃ a ∈ areas, b.id = a.broker.id) :
    Fresh areas (f.addBroker b) := by
  have hnode {address n} (hn : (f.addBroker b).nodes.get? address = some n) :
      n = ⟨b, ∅⟩ ∨ f.nodes.get? address = some n := by
    rw [Federation.addBroker, Table.get?_insert] at hn
    split at hn
    · exact .inl (Option.some.inj hn).symm
    · exact .inr hn
  refine ⟨fun address n hn => ?_, fun address n hn => ?_⟩ <;> rcases hnode hn with rfl | hn
  · exact hb
  · exact H.staffed address n hn
  · rfl
  · exact H.unconnected address n hn

theorem fresh_ofAreas {calendar : Nat → Nat} (hf : ofAreas calendar areas = .ok f) :
    Fresh areas f := by
  have hfold (l : List BrokerArea) (hl : ∀ a ∈ l, a ∈ areas) (f₀ : Federation)
      (H : Fresh areas f₀) (h : (l.foldlM (fun f a => do
        let atlas ← Atlas.ofAreas a.broker.id areas
        return f.addBroker (.start atlas CallConvention.standard.policy)) f₀ :
          Except AtlasError Federation) = .ok f) : Fresh areas f := by
    induction l generalizing f₀ with
    | nil =>
      cases h
      exact H
    | cons a l ih =>
      obtain ⟨ha, hl⟩ := List.forall_mem_cons.1 hl
      rw [List.foldlM_cons] at h
      cases hatlas : Atlas.ofAreas a.broker.id areas with
      | error e =>
        rw [hatlas] at h
        cases h
      | ok atlas =>
        rw [hatlas] at h
        exact ih hl _ (H.addBroker ⟨a, ha, Atlas.own_of_ofAreas hatlas⟩) h
  exact hfold areas (fun _ h => h) (empty calendar) ⟨nofun, nofun⟩ hf

/-- A federation sends no more replies to the channels opened at a node under an id than requests
come in there under that id, through those channels or as forwards from a broker with that id. -/
theorem replies_le_requests {calendar : Nat → Nat} (hf : ofAreas calendar areas = .ok f)
    (acts : List Act) (A c : String) :
    f.replies acts A c ≤ acts.countP (·.asks A c) + f.forwarded A c acts ∧
      (Outsider areas c → f.replies acts A c ≤ acts.countP (·.asks A c)) := by
  have hfresh := fresh_ofAreas hf
  have hlisted : Listed (f.channels acts) f := by
    refine ⟨List.inj_on_of_nodup_map (nodup_channels acts f), fun {A c k} hk => ?_⟩
    obtain ⟨n, hn, hget⟩ := Option.bind_eq_some_iff.1 hk
    rw [hfresh.unconnected A n hn] at hget
    cases hget
  have hle : f.replies acts A c ≤ acts.countP (·.asks A c) + f.forwarded A c acts :=
    countP_deliveries_le acts hlisted fun _ h => h
  refine ⟨hle, fun hc => ?_⟩
  rwa [hfresh.staffed.forwarded hc, Nat.add_zero] at hle

/-! ## A client with the name of a broker -/

/-- A ship at sea publishes to the world, while a client of the city goes by the name of the root.
-/
def namesake : List Act :=
  [.dial "127.0.0.1:6000" "ship",
    .send ⟨0, "127.0.0.1:6000", "ship"⟩ (.connect (some ⟨40, -30⟩)),
    .dial "127.0.0.1:6001" "cloud",
    .send ⟨0, "127.0.0.1:6000", "ship"⟩ (.publish ⟨⟨"storm"⟩, .world, "seek shelter"⟩)]

/-- The ship gets the replies to its two requests, and the client of the city no more than the one
acknowledgement of what the root forwards. -/
theorem namesake_replies :
    (addBrokers cityAndRoot (empty Nat.succ) cityAndRoot).replies namesake
      "127.0.0.1:6000" "ship" ≤ 2 ∧
    (addBrokers cityAndRoot (empty Nat.succ) cityAndRoot).replies namesake
      "127.0.0.1:6001" "cloud" ≤ 1 := by
  have hf : ofAreas Nat.succ cityAndRoot =
      .ok (addBrokers cityAndRoot (empty Nat.succ) cityAndRoot) :=
    ofAreas_eq Nat.succ ⟨by decide, by decide⟩
  have houtsider : Outsider cityAndRoot "ship" := by
    unfold Outsider
    decide
  have hship : namesake.countP (·.asks "127.0.0.1:6000" "ship") = 2 := by decide +kernel
  have hforwarded : namesake.countP (·.asks "127.0.0.1:6001" "cloud") +
      (addBrokers cityAndRoot (empty Nat.succ) cityAndRoot).forwarded
        "127.0.0.1:6001" "cloud" namesake = 1 := by decide +kernel
  exact ⟨hship ▸ (replies_le_requests hf namesake "127.0.0.1:6000" "ship").2 houtsider,
    hforwarded ▸ (replies_le_requests hf namesake "127.0.0.1:6001" "cloud").1⟩

/-- The client of the city gets that acknowledgement, though it asked for nothing. -/
theorem namesake_unasked :
    ofAreas Nat.succ cityAndRoot = .ok (addBrokers cityAndRoot (empty Nat.succ) cityAndRoot) ∧
    namesake.countP (·.asks "127.0.0.1:6001" "cloud") = 0 ∧
    (addBrokers cityAndRoot (empty Nat.succ) cityAndRoot).replies namesake
      "127.0.0.1:6001" "cloud" = 1 :=
  ⟨ofAreas_eq Nat.succ ⟨by decide, by decide⟩, by decide +kernel, by decide +kernel⟩

end Federation

end Geocast
