import Geocast.Proofs.Federation.Replies
import Geocast.Proofs.Broker.Untouched

/-! # Channels that were superseded

Brokers know a client by its id alone, and any number of channels may be opened under one id. The
last one opened is the registered one until it is closed (`connection?_after_iff`), since numbers of
channels are never given twice. Closing any other channel does nothing, and closing the registered
one takes from the broker what belongs to the client and no more (`Built.close_ended`). -/

namespace Geocast

namespace Broker

variable {b : Broker} {c : String}

/-- From `b` to `b'` the client `c` was forgotten, with its record and its entries in the index, and
nothing else changed. -/
structure Forgets (b : Broker) (c : String) (b' : Broker) : Prop where
  records : ∀ y, b'.record? y = if c = y then none else b.record? y
  entries : ∀ i t, b'.index.get? i t = if c = i.clientId then none else b.index.get? i t
  atlas : b'.atlas = b.atlas
  policy : b'.policy = b.policy
  lastSeq : b'.roster.lastSeq = b.roster.lastSeq

theorem Coherent.forgets_evict (H : Coherent b) (c : String) : b.Forgets c (b.evict c) where
  records := b.evict_record? c
  entries i t := by
    have hbecomes : b.Becomes c none (b.evict c) :=
      H.becomes c (.disconnect .normalDisconnection none) ((b.evict_record? c c).trans (if_pos rfl))
    refine Option.ext fun g => (hbecomes.entries i t g).trans ?_
    split <;> simp
  atlas := b.evict_atlas c
  policy := by rcases b.evict_eq c with ⟨-, h⟩ | ⟨_, _, -, h⟩ <;> rw [h]
  lastSeq := b.evict_lastSeq c

end Broker

namespace Federation

/-- The federations that can be built and got into: brokers are added, and clients act. -/
inductive Built : Federation → Prop
  | empty (calendar : Nat → Nat) : Built (.empty calendar)
  | addBroker {f : Federation} {b : Broker} : Built f → b.Reachable → Built (f.addBroker b)
  | act {f : Federation} {x : Act} : Built f → Built (f.act x)

variable {f f' : Federation} {x : Act} {acts : List Act} {ch : FederationChannel} {A B c : String}
  {b : Broker} {k : Nat}

theorem Built.after (H : Built f) (acts : List Act) : Built (f.after acts) := by
  induction acts generalizing f with
  | nil => exact H
  | cons x acts ih => exact ih H.act

/-! ## What an act does to brokers -/

theorem brokerAt?_modify {g : Node → Node} (h : f'.nodes = f.nodes.modify A g)
    (hg : ∀ n, (g n).broker = n.broker) (B : String) : f'.brokerAt? B = f.brokerAt? B := by
  rw [brokerAt?, brokerAt?, h, Table.get?_modify]
  split
  · rw [Option.map_map]
    exact congrArg (Option.map · _) (funext hg)
  · rfl

@[simp] theorem brokerAt?_registered (f : Federation) (A c B : String) :
    (f.registered A c).brokerAt? B = f.brokerAt? B :=
  brokerAt?_modify (g := fun n => { n with connections := n.connections.insert c f.opened }) rfl
    (fun _ => rfl) B

@[simp] theorem brokerAt?_unregistered (f : Federation) (A c B : String) :
    (f.unregistered A c).brokerAt? B = f.brokerAt? B :=
  brokerAt?_modify (g := fun n => { n with connections := n.connections.erase c }) rfl
    (fun _ => rfl) B

/-- A delivery changes the broker that it goes to and no other. -/
theorem brokerAt?_deliver (f : Federation) (A sender : String) (p : Payload) (B : String) :
    (f.deliver A sender p).brokerAt? B =
      if A = B then (f.brokerAt? B).map fun b => (b.handle sender p).1 else f.brokerAt? B := by
  cases hn : f.nodes.get? A with
  | none =>
    rw [deliver_of_none hn]
    split
    · next h => rw [brokerAt?, ← h, hn]; rfl
    · rfl
  | some n =>
    rw [brokerAt?, brokerAt?, deliver_nodes hn, Table.get?_modify]
    split
    · next h => rw [← h, hn]; rfl
    · rfl

/-- A broker stays as it is when clients act, or it processes a payload. -/
theorem brokerAt?_act (h : (f.act x).brokerAt? B = some b) : ∃ b₀, f.brokerAt? B = some b₀ ∧
    (b = b₀ ∨ ∃ sender p, b = (b₀.handle sender p).1) := by
  have hdelivered {f : Federation} {A sender p}
      (h : (f.deliver A sender p).brokerAt? B = some b) : ∃ b₀, f.brokerAt? B = some b₀ ∧
        (b = b₀ ∨ ∃ sender p, b = (b₀.handle sender p).1) := by
    rw [brokerAt?_deliver] at h
    split at h
    · obtain ⟨b₀, hb₀, rfl⟩ := Option.map_eq_some_iff.1 h
      exact ⟨b₀, hb₀, .inr ⟨_, _, rfl⟩⟩
    · exact ⟨b, h, .inl rfl⟩
  cases x with
  | dial A c =>
    cases hn : f.nodes.get? A with
    | none =>
      rw [act, dial_of_none hn] at h
      exact ⟨b, h, .inl rfl⟩
    | some n =>
      rw [act, dial_eq hn] at h
      exact ⟨b, (brokerAt?_registered f A c B).symm.trans h, .inl rfl⟩
  | send ch p => exact hdelivered h
  | recv ch budget =>
    rw [act, brokerAt?, (recv_drained ch budget f).nodes] at h
    exact ⟨b, h, .inl rfl⟩
  | close ch =>
    rcases close_cases ch f with hclose | ⟨-, hclose⟩ <;> rw [act, hclose] at h
    · exact ⟨b, h, .inl rfl⟩
    · obtain ⟨b₀, hb₀, hb⟩ := hdelivered h
      exact ⟨b₀, (brokerAt?_unregistered ..).symm.trans hb₀, hb⟩

theorem brokerAt?_addBroker (f : Federation) (b : Broker) (B : String) :
    (f.addBroker b).brokerAt? B =
      if b.atlas.own.broker.address = B then some b else f.brokerAt? B := by
  rw [brokerAt?, addBroker, Table.get?_insert]
  split <;> rfl

theorem Built.coherent (H : Built f) (h : f.brokerAt? B = some b) : b.Coherent := by
  induction H generalizing b with
  | empty => exact nomatch h
  | addBroker _ hb ih =>
    rw [brokerAt?_addBroker] at h
    split at h
    · cases h
      exact hb.coherent
    · exact ih h
  | act _ ih =>
    obtain ⟨b₀, hb₀, rfl | ⟨sender, p, rfl⟩⟩ := brokerAt?_act h
    · exact ih hb₀
    · exact (ih hb₀).change (b₀.handle_change sender p)

/-! ## Closing a channel -/

/-- Closing a channel that is not the registered one does nothing. -/
theorem close_of_not_registered (h : f.connection? ch.address ch.clientId ≠ some ch.number) :
    close ch f = f := by
  unfold close
  split
  · rfl
  · next n hn =>
    rw [connection?_of_get? hn] at h
    exact if_neg h

theorem close_of_registered (h : f.connection? ch.address ch.clientId = some ch.number) :
    close ch f = (f.unregistered ch.address ch.clientId).deliver ch.address ch.clientId
      (.disconnect .normalDisconnection none) := by
  obtain ⟨n, hn, hc⟩ := Option.bind_eq_some_iff.1 h
  rw [close, hn]
  exact if_pos hc

/-- From `f` to `f'` the channel registered at `A` under `c` was closed: there is none now, the
broker at `A` forgot the client `c`, and nothing else changed. -/
structure Ended (f : Federation) (A c : String) (f' : Federation) : Prop where
  connections : ∀ B y, f'.connection? B y = if A = B ∧ c = y then none else f.connection? B y
  forgotten : ∃ b b', f.brokerAt? A = some b ∧ f'.brokerAt? A = some b' ∧ b.Forgets c b'
  elsewhere : ∀ B, A ≠ B → f'.brokerAt? B = f.brokerAt? B
  mail : f'.mail = f.mail
  opened : f'.opened = f.opened

theorem Built.close_ended (H : Built f) (ch : FederationChannel)
    (h : f.connection? ch.address ch.clientId = some ch.number) :
    f.Ended ch.address ch.clientId (close ch f) := by
  obtain ⟨n, hn, -⟩ := Option.bind_eq_some_iff.1 h
  have hb : f.brokerAt? ch.address = some n.broker := by rw [brokerAt?, hn, Option.map_some]
  rw [close_of_registered h]
  refine ⟨fun B y => ?_, ⟨n.broker, n.broker.evict ch.clientId, hb, ?_, ?_⟩, fun B hB => ?_, ?_, ?_⟩
  · rw [deliver_connection?, connection?_unregistered]
  · rw [brokerAt?_deliver, if_pos rfl, brokerAt?_unregistered, hb]
    rfl
  · exact (H.coherent hb).forgets_evict ch.clientId
  · rw [brokerAt?_deliver, if_neg hB, brokerAt?_unregistered]
  · have hn' : (f.unregistered ch.address ch.clientId).nodes.get? ch.address =
        some { n with connections := n.connections.erase ch.clientId } := by
      rw [unregistered, Table.get?_modify, if_pos rfl, hn, Option.map_some]
    rw [deliver_mail hn', Broker.handle_unanswered _ _ rfl]
    exact List.append_nil _
  · exact deliver_opened ..

/-! ## Who is registered -/

theorem act_dial {n : Node} (h : f.nodes.get? A = some n) (c : String) :
    f.act (.dial A c) = f.registered A c := by
  rw [act, dial_eq h]

/-- A registered channel stays so until another one is opened in its place or it is closed. -/
theorem connection?_act_iff (hk : k < f.opened) : (f.act x).connection? A c = some k ↔
    f.connection? A c = some k ∧ x ≠ .dial A c ∧ x ≠ .close ⟨k, A, c⟩ := by
  cases x with
  | dial A' c' =>
    cases hn : f.nodes.get? A' with
    | none =>
      rw [act, dial_of_none hn]
      refine ⟨fun h => ⟨h, ?_, by simp⟩, And.left⟩
      rintro ⟨⟩
      rw [connection?, hn] at h
      exact absurd h.symm (Option.some_ne_none k)
    | some n =>
      rw [act_dial hn, connection?_registered hn]
      split
      · next hsame =>
        obtain ⟨rfl, rfl⟩ := hsame
        exact ⟨fun h => absurd (Option.some.inj h) (Nat.ne_of_gt hk), fun h => absurd rfl h.2.1⟩
      · next hne =>
        refine ⟨fun h => ⟨h, ?_, by simp⟩, And.left⟩
        rintro ⟨⟩
        exact hne ⟨rfl, rfl⟩
  | send ch p =>
    rw [act, send, deliver_connection?]
    exact ⟨fun h => ⟨h, by simp, by simp⟩, And.left⟩
  | recv ch budget =>
    rw [act, (recv_drained ch budget f).connection?]
    exact ⟨fun h => ⟨h, by simp, by simp⟩, And.left⟩
  | close ch =>
    by_cases hregistered : f.connection? ch.address ch.clientId = some ch.number
    · rw [act, close_of_registered hregistered, deliver_connection?, connection?_unregistered]
      split
      · next hsame =>
        obtain ⟨rfl, rfl⟩ := hsame
        refine ⟨fun h => absurd h.symm (Option.some_ne_none k), fun h => absurd ?_ h.2.2⟩
        obtain rfl := Option.some.inj (hregistered.symm.trans h.1)
        rfl
      · next hne =>
        refine ⟨fun h => ⟨h, by simp, ?_⟩, And.left⟩
        rintro ⟨⟩
        exact hne ⟨rfl, rfl⟩
    · rw [act, close_of_not_registered hregistered]
      refine ⟨fun h => ⟨h, by simp, ?_⟩, And.left⟩
      rintro ⟨⟩
      exact hregistered h

theorem connection?_after_iff (hk : k < f.opened) : (f.after acts).connection? A c = some k ↔
    f.connection? A c = some k ∧ .dial A c ∉ acts ∧ .close ⟨k, A, c⟩ ∉ acts := by
  induction acts generalizing f with
  | nil => simp [after]
  | cons x acts ih =>
    have hk' : k < (f.act x).opened := Nat.lt_of_lt_of_le hk (opened_le_act f x)
    refine (ih hk').trans ?_
    rw [connection?_act_iff hk]
    simp only [List.mem_cons, not_or, ne_eq, eq_comm (a := x)]
    tauto

/-- A channel is the registered one until a later one is opened at the same broker under the same
id or it is closed. From then on closing it changes nothing at all. Until then closing it ends the
registration, and the broker forgets the client, with what belongs to it and no more. -/
theorem superseded_close_is_void {f f' : Federation} (hf : Built f) {A c : String}
    {ch : FederationChannel} (hdial : dial A c f = (.ok ch, f')) (acts : List Act) :
    ((f'.after acts).connection? A c = some ch.number ↔ .dial A c ∉ acts ∧ .close ch ∉ acts) ∧
    (.dial A c ∈ acts ∨ .close ch ∈ acts → close ch (f'.after acts) = f'.after acts) ∧
    ((f'.after acts).connection? A c = some ch.number →
      (f'.after acts).Ended A c (close ch (f'.after acts))) := by
  obtain ⟨n, hn, rfl, rfl⟩ := eq_of_dial_ok hdial
  have hbuilt : Built (f.registered A c) := act_dial hn c ▸ hf.act
  have hregistered : ((f.registered A c).after acts).connection? A c = some f.opened ↔
      .dial A c ∉ acts ∧ .close ⟨f.opened, A, c⟩ ∉ acts := by
    rw [connection?_after_iff (Nat.lt_succ_self f.opened), connection?_registered hn,
      if_pos ⟨rfl, rfl⟩, eq_self, true_and]
  refine ⟨hregistered, fun hacts => close_of_not_registered fun h => ?_, fun h => ?_⟩
  · obtain ⟨hdial, hclose⟩ := hregistered.1 h
    exact hacts.elim hdial hclose
  · exact (hbuilt.after acts).close_ended ⟨f.opened, A, c⟩ h

/-- A federation of one broker, with which a car and a van are registered. -/
def watched : Federation := (empty Nat.succ).addBroker .twoWatch

/-- The car opens two channels. Closing the first one does nothing, and closing the second one makes
the broker forget the car, which it knows until then. -/
theorem watched_superseded : ∃ old new f₁ f₂,
    dial "127.0.0.1:6001" "car" watched = (.ok old, f₁) ∧
    dial "127.0.0.1:6001" "car" f₁ = (.ok new, f₂) ∧
    close old f₂ = f₂ ∧ f₂.Ended "127.0.0.1:6001" "car" (close new f₂) ∧
    (f₂.brokerAt? "127.0.0.1:6001").any (fun b => (b.record? "car").isSome) := by
  have hbuilt : Built watched := .addBroker (.empty Nat.succ) ⟨_, _, _, rfl⟩
  obtain ⟨n, hn⟩ := Option.isSome_iff_exists.1
    (show (watched.nodes.get? "127.0.0.1:6001").isSome by decide +kernel)
  have hold := dial_eq hn "car"
  have hn₁ : (watched.registered "127.0.0.1:6001" "car").nodes.get? "127.0.0.1:6001" =
      some { n with connections := n.connections.insert "car" watched.opened } := by
    rw [registered, Table.get?_modify, if_pos rfl, hn, Option.map_some]
  have hnew := dial_eq hn₁ "car"
  have hbuilt₁ : Built (watched.registered "127.0.0.1:6001" "car") := act_dial hn "car" ▸ hbuilt.act
  obtain ⟨-, hvoid, -⟩ :=
    superseded_close_is_void hbuilt hold [.dial "127.0.0.1:6001" "car"]
  obtain ⟨hregistered, -, hended⟩ := superseded_close_is_void hbuilt₁ hnew []
  have hafter : (watched.registered "127.0.0.1:6001" "car").after
      [.dial "127.0.0.1:6001" "car"] = _ := act_dial hn₁ "car"
  refine ⟨_, _, _, _, hold, hnew, ?_, ?_, ?_⟩
  · rw [← hafter]
    exact hvoid (.inl List.mem_cons_self)
  · exact hended (hregistered.2 ⟨List.not_mem_nil, List.not_mem_nil⟩)
  · rw [brokerAt?_registered, brokerAt?_registered]
    decide +kernel

end Federation

end Geocast
