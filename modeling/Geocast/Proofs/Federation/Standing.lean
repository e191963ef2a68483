import Geocast.Proofs.Broker.Answer
import Geocast.Proofs.Federation.Run

/-! # The standing of a client

What a federation has of a client at an address is the channel registered under its id, the broker's
record, and the replies on their way to that channel. Whatever others do leaves this as it is
(`Unmoved`): it takes an act under the same id at the same address to change it. The ids of brokers
are an exception, since the acknowledgement of a forward goes to the id of the broker that
forwarded. -/

namespace Geocast

/-- An id that no broker has. -/
def Outsider (areas : List BrokerArea) (c : String) : Prop := ∀ a ∈ areas, a.broker.id ≠ c

namespace Federation

variable {areas : List BrokerArea} {f f' f'' : Federation} {address x A y : String} {k : Nat}
  {p : Payload}

def record? (f : Federation) (address c : String) : Option ClientRecord :=
  (f.brokerAt? address).bind (·.record? c)

/-- The replies among payloads on their way that go to the channel numbered `k`. -/
def repliesTo (k : Nat) (mail : List (Nat × Payload)) : List Payload :=
  (mail.filter fun m => m.1 = k ∧ m.2.kind ≠ .publish).map Prod.snd

/-- The client `y` stands at the address `A` in `f'` as it did in `f`. -/
structure Unmoved (f f' : Federation) (A y : String) : Prop where
  connection : f'.connection? A y = f.connection? A y
  record : f'.record? A y = f.record? A y
  replies : ∀ k, f.connection? A y = some k → repliesTo k f'.mail = repliesTo k f.mail

theorem Unmoved.refl (f : Federation) (A y : String) : Unmoved f f A y := ⟨rfl, rfl, fun _ _ => rfl⟩

theorem Unmoved.trans (H : Unmoved f f' A y) (H' : Unmoved f' f'' A y) : Unmoved f f'' A y where
  connection := H'.connection.trans H.connection
  record := H'.record.trans H.record
  replies k hk := (H'.replies k (H.connection.trans hk)).trans (H.replies k hk)

/-! ## Replies among the mail -/

theorem repliesTo_append (k : Nat) (mail mail' : List (Nat × Payload)) :
    repliesTo k (mail ++ mail') = repliesTo k mail ++ repliesTo k mail' := by
  simp [repliesTo]

theorem repliesTo_eq_nil {mail : List (Nat × Payload)} (h : ∀ m ∈ mail, m.1 ≠ k) :
    repliesTo k mail = [] := by
  rw [repliesTo, List.filter_eq_nil_iff.2 fun m hm => by simp [h m hm], List.map_nil]

theorem repliesTo_flatMap {α : Type} {g : α → List (Nat × Payload)} {l : List α}
    (h : ∀ t ∈ l, repliesTo k (g t) = []) : repliesTo k (l.flatMap g) = [] := by
  induction l with
  | nil => rfl
  | cons t l ih =>
    obtain ⟨ht, hl⟩ := List.forall_mem_cons.1 h
    rw [List.flatMap_cons, repliesTo_append, ht, ih hl, List.append_nil]

/-- A channel registered under one id gets the replies to that id. -/
theorem repliesTo_routed {connections : Table String Nat} (hk : connections.get? y = some k)
    (honce : ∀ c, connections.get? c = some k → c = y) (d : Dispatch) :
    repliesTo k (routed connections d.outgoing) = d.repliesTo y := by
  obtain ⟨out, forwards⟩ := d
  induction out with
  | nil => rfl
  | cons m out ih =>
    obtain ⟨c, q⟩ := m
    have hsplit : Dispatch.repliesTo ⟨(c, q) :: out, forwards⟩ y =
        (if c = y ∧ q.kind ≠ .publish then [q] else []) ++
          Dispatch.repliesTo ⟨out, forwards⟩ y := by
      by_cases hc : c = y <;> by_cases hq : q.kind = .publish <;>
        simp [Dispatch.repliesTo, Dispatch.sentTo, hc, hq]
    rw [hsplit, ← ih]
    cases hn : connections.get? c with
    | none =>
      have hc : c ≠ y := fun h => by cases (h ▸ hn).symm.trans hk
      simp [routed, hn, hc]
    | some n =>
      have hiff : c = y ↔ n = k :=
        ⟨fun h => Option.some.inj ((h ▸ hn).symm.trans hk), fun h => honce c (h ▸ hn)⟩
      by_cases hnk : n = k <;> by_cases hq : q.kind = .publish <;>
        simp [routed, hn, hiff, repliesTo, hnk, hq]

/-- What the broker of another address sends does not concern a channel. -/
theorem repliesTo_routed_other (H : Charted areas f) {n : Node}
    (hn : f.nodes.get? address = some n) (hk : f.connection? A y = some k) (hne : address ≠ A)
    (out : List (String × Payload)) : repliesTo k (routed n.connections out) = [] := by
  refine repliesTo_eq_nil fun m hm hmk => hne ?_
  obtain ⟨c, -, hc⟩ := mem_routed.1 hm
  exact (H.once hk ((connection?_of_get? hn c).trans (hmk ▸ hc))).1

theorem repliesTo_routed_own (H : Charted areas f) {n : Node} (hn : f.nodes.get? A = some n)
    (hk : f.connection? A y = some k) (d : Dispatch) :
    repliesTo k (routed n.connections d.outgoing) = d.repliesTo y :=
  repliesTo_routed ((connection?_of_get? hn y).symm.trans hk)
    (fun c hc => (H.once hk ((connection?_of_get? hn c).trans hc)).2) d

/-! ## Deliveries -/

/-- The peers that are forwarded to send no replies to clients. -/
theorem repliesTo_relayed (H : Charted areas f) {sender : String} (hne : sender ≠ y)
    (hk : f.connection? A y = some k) (t : BrokerInfo × Payload) :
    repliesTo k (f.relayed sender t) = [] := by
  unfold relayed
  split
  · next n hn =>
    obtain ⟨address, -, hget⟩ := Option.bind_eq_some_iff.1 hn
    by_cases ha : address = A
    · subst ha
      rw [repliesTo_routed_own H hget hk]
      exact Broker.repliesTo_other hne
    · exact repliesTo_routed_other H hget hk ha _
  · rfl

theorem Charted.broker_id (H : Charted areas f) {n : Node} (hn : f.nodes.get? address = some n) :
    ∃ a ∈ areas, n.broker.id = a.broker.id := by
  obtain ⟨a, ha, rfl⟩ := H.only address n hn
  refine ⟨a, ha, ?_⟩
  rw [Broker.id, (H.runs ha hn).atlas]
  rfl

/-- The replies that a delivery adds are those of the broker that it goes to, unless peers that it
forwards to reply as well. -/
theorem repliesTo_deliver_of_relayed (H : Charted areas f) {n : Node}
    (hn : f.nodes.get? address = some n) (hk : f.connection? A y = some k) {sender : String}
    {p : Payload} (hrelayed : repliesTo k ((n.broker.handle sender p).2.forwards.flatMap
      ((f.handled address n sender p).relayed n.broker.id)) = []) :
    repliesTo k (f.deliver address sender p).mail = repliesTo k f.mail ++
      if address = A then (n.broker.handle sender p).2.repliesTo y else [] := by
  rw [deliver_mail hn, repliesTo_append, repliesTo_append, hrelayed, List.append_nil]
  split
  · next ha =>
    subst ha
    rw [repliesTo_routed_own H hn hk]
  · next ha => rw [repliesTo_routed_other H hn hk ha]

/-- The replies to a client are those of the broker that a delivery goes to. -/
theorem repliesTo_deliver (H : Charted areas f) (hy : Outsider areas y) {n : Node}
    (hn : f.nodes.get? address = some n) (hk : f.connection? A y = some k) (sender : String)
    (p : Payload) : repliesTo k (f.deliver address sender p).mail = repliesTo k f.mail ++
      if address = A then (n.broker.handle sender p).2.repliesTo y else [] := by
  obtain ⟨a, ha, hid⟩ := H.broker_id hn
  have hk' : (f.handled address n sender p).connection? A y = some k := by
    rw [handled_connection?, hk]
  exact repliesTo_deliver_of_relayed H hn hk <| repliesTo_flatMap fun t _ =>
    repliesTo_relayed (H.handled hn sender p) (fun h => hy a ha (hid ▸ h)) hk' t

theorem record?_of_get? {n : Node} (h : f.nodes.get? address = some n) (c : String) :
    f.record? address c = n.broker.record? c := by
  rw [record?, brokerAt?, h]
  rfl

theorem record?_modify {g : Node → Node} (h : f'.nodes = f.nodes.modify address g)
    (hg : ∀ n, f.nodes.get? address = some n → (g n).broker.record? y = n.broker.record? y)
    (A : String) : f'.record? A y = f.record? A y := by
  rw [record?, record?, brokerAt?, brokerAt?, h, Table.get?_modify]
  split
  · next ha =>
    subst ha
    cases hn : f.nodes.get? address with
    | none => rfl
    | some n => exact hg n hn
  · rfl

theorem record?_deliver {n : Node} (hn : f.nodes.get? address = some n) (sender : String)
    (p : Payload) (y : String) : (f.deliver address sender p).record? address y =
      (n.broker.handle sender p).1.record? y := by
  rw [record?, brokerAt?, deliver_nodes hn, Table.get?_modify, if_pos rfl, hn]
  rfl

theorem record?_deliver_other (hne : address ≠ A) (f : Federation) (sender : String) (p : Payload)
    (y : String) : (f.deliver address sender p).record? A y = f.record? A y := by
  cases hn : f.nodes.get? address with
  | none => rw [deliver_of_none hn]
  | some n =>
    rw [record?, record?, brokerAt?, brokerAt?, deliver_nodes hn, Table.get?_modify, if_neg hne]

theorem Charted.deliver_unmoved (H : Charted areas f) (hy : Outsider areas y)
    (hne : ¬ (address = A ∧ x = y)) (p : Payload) : Unmoved f (f.deliver address x p) A y := by
  cases hn : f.nodes.get? address with
  | none =>
    rw [deliver_of_none hn]
    exact .refl f A y
  | some n =>
    refine ⟨deliver_connection? .., ?_, fun k hk => ?_⟩
    · by_cases ha : address = A
      · subst ha
        rw [record?_deliver hn, record?_of_get? hn]
        exact (n.broker.handle_change x p).record?_other fun h => hne ⟨rfl, h⟩
      · exact record?_deliver_other ha f x p y
    · rw [repliesTo_deliver H hy hn hk]
      split
      · next ha => rw [Broker.repliesTo_other fun h => hne ⟨ha, h⟩, List.append_nil]
      · exact List.append_nil _

/-! ## Opening and closing -/

theorem registered_unmoved {n : Node} (hn : f.nodes.get? address = some n)
    (hne : ¬ (address = A ∧ x = y)) : Unmoved f (f.registered address x) A y where
  connection := by rw [connection?_registered hn, if_neg hne]
  record := record?_modify
    (g := fun n => { n with connections := n.connections.insert x f.opened }) rfl
    (fun _ _ => rfl) A
  replies _ _ := rfl

theorem record?_unregistered (f : Federation) (address x A y : String) :
    (f.unregistered address x).record? A y = f.record? A y :=
  record?_modify (g := fun n => { n with connections := n.connections.erase x }) rfl
    (fun _ _ => rfl) A

theorem unregistered_unmoved (hne : ¬ (address = A ∧ x = y)) :
    Unmoved f (f.unregistered address x) A y where
  connection := by rw [connection?_unregistered, if_neg hne]
  record := record?_unregistered f address x A y
  replies _ _ := rfl

theorem Charted.close_unmoved (H : Charted areas f) (hy : Outsider areas y)
    {channel : FederationChannel} (hne : ¬ (channel.address = A ∧ channel.clientId = y)) :
    Unmoved f (Federation.close channel f) A y := by
  rcases close_cases channel f with h | ⟨-, h⟩ <;> rw [h]
  · exact .refl f A y
  · exact (unregistered_unmoved hne).trans ((H.unregistered ..).deliver_unmoved hy hne _)

/-- Closing a channel leaves the registrations of all others. -/
theorem connection?_close {channel : FederationChannel} (hk : f.connection? A y = some k)
    (hne : channel.number ≠ k) : (close channel f).connection? A y = some k := by
  rcases close_cases channel f with h | ⟨hc, h⟩ <;> rw [h]
  · exact hk
  · rw [deliver_connection?, connection?_unregistered, if_neg, hk]
    rintro ⟨rfl, rfl⟩
    exact hne (Option.some.inj (hc.symm.trans hk))

/-- A new channel has nothing on its way. -/
theorem Charted.repliesTo_new (H : Charted areas f) : repliesTo f.opened f.mail = [] :=
  repliesTo_eq_nil fun m hm => Nat.ne_of_lt (H.mail m hm)

/-! ## Asking and being answered -/

/-- A request from a registered client is answered on its channel. -/
theorem Charted.send_answered (H : Charted areas f) (hx : Outsider areas x)
    (hk : f.connection? address x = some k) (hp : p.IsRequest) :
    ∃ r, repliesTo k (f.deliver address x p).mail = repliesTo k f.mail ++ [r] ∧
      Served (f.record? address x) p r ((f.deliver address x p).record? address x) := by
  obtain ⟨n, hn, -⟩ := Option.bind_eq_some_iff.1 hk
  obtain ⟨r, hr, hanswered⟩ := n.broker.handle_answered x hp
  refine ⟨r, ?_, ?_⟩
  · rw [repliesTo_deliver H hx hn hk, if_pos rfl, hr]
  · rw [record?_of_get? hn, record?_deliver hn]
    exact hanswered

/-! ## Receiving -/

/-- Of `f` only mail to the channel numbered `k` was taken, and time passed, until `f'`. -/
structure Drained (k : Nat) (f f' : Federation) : Prop where
  nodes : f'.nodes = f.nodes
  opened : f'.opened = f.opened
  mail : ∀ m ∈ f'.mail, m ∈ f.mail
  others : ∀ k', k' ≠ k → repliesTo k' f'.mail = repliesTo k' f.mail

namespace Drained

theorem refl (k : Nat) (f : Federation) : Drained k f f :=
  ⟨rfl, rfl, fun _ h => h, fun _ _ => rfl⟩

theorem trans (H : Drained k f f') (H' : Drained k f' f'') : Drained k f f'' where
  nodes := H'.nodes.trans H.nodes
  opened := H'.opened.trans H.opened
  mail m hm := H.mail m (H'.mail m hm)
  others k' hk := (H'.others k' hk).trans (H.others k' hk)

theorem connection? (H : Drained k f f') (A y : String) :
    f'.connection? A y = f.connection? A y := by
  rw [Federation.connection?, Federation.connection?, H.nodes]

theorem record? (H : Drained k f f') (A y : String) : f'.record? A y = f.record? A y := by
  rw [Federation.record?, Federation.record?, brokerAt?, brokerAt?, H.nodes]

theorem unmoved (H : Drained k f f') (hne : f.connection? A y ≠ some k) : Unmoved f f' A y :=
  ⟨H.connection? A y, H.record? A y, fun k' hk' => H.others k' fun h => hne (h ▸ hk')⟩

theorem charted (H : Drained k f f') (h : Charted areas f) : Charted areas f' where
  node := H.nodes ▸ h.node
  only := H.nodes ▸ h.only
  numbered hc := by
    rw [H.connection?] at hc
    exact H.opened ▸ h.numbered hc
  once hc hc' := by
    rw [H.connection?] at hc hc'
    exact h.once hc hc'
  mail m hm := H.opened ▸ h.mail m (H.mail m hm)

end Drained

/-- The oldest payload of a channel is the oldest of its replies, unless it is a publication. -/
theorem repliesTo_taken {channel : FederationChannel} {mail : List (Nat × Payload)}
    {m : Nat × Payload} (hm : mail.find? (isFor channel) = some m) (k : Nat) :
    repliesTo k mail = (if channel.number = k ∧ m.2.kind ≠ .publish then [m.2] else []) ++
      repliesTo k (mail.eraseP (isFor channel)) := by
  induction mail with
  | nil => exact nomatch hm
  | cons m' mail ih =>
    by_cases hfor : isFor channel m'
    · rw [List.find?_cons_of_pos hfor] at hm
      obtain rfl := Option.some.inj hm
      have hnumber : m'.1 = channel.number := by simpa [isFor] using hfor
      rw [List.eraseP_cons_of_pos hfor, ← List.singleton_append, repliesTo_append]
      by_cases hk : channel.number = k <;> by_cases hq : m'.2.kind = .publish <;>
        simp [repliesTo, hnumber, hk, hq]
    · rw [List.find?_cons_of_neg hfor] at hm
      have hnumber : m'.1 ≠ channel.number := by simpa [isFor] using hfor
      rw [List.eraseP_cons_of_neg hfor, ← List.singleton_append, repliesTo_append, ih hm,
        ← List.singleton_append (l := mail.eraseP _), repliesTo_append]
      by_cases hk : channel.number = k
      · have hnone : repliesTo k [m'] = [] :=
          repliesTo_eq_nil fun m'' hm'' => by
            rw [List.mem_singleton.1 hm'']
            exact hk ▸ hnumber
        rw [hnone, List.nil_append, List.nil_append]
      · simp [hk]

theorem recv_drained (channel : FederationChannel) (budget : Nat) (f : Federation) :
    Drained channel.number f (recv channel budget f).2 := by
  unfold recv
  split
  · next m hm =>
    refine ⟨rfl, rfl, fun m hm => List.mem_of_mem_eraseP hm, fun k' hk' => ?_⟩
    rw [repliesTo_taken hm, if_neg fun h => hk' h.1.symm, List.nil_append]
  · exact ⟨rfl, rfl, fun _ h => h, fun _ _ => rfl⟩

end Federation

end Geocast
