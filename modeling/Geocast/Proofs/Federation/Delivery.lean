import Geocast.Federation
import Geocast.Proofs.Broker.Publication

/-! # What a delivery does

A broker forwards nothing but publications, and a broker that one is forwarded to answers without
forwards of its own and stays as it is. So a delivery changes one broker, the one it goes to, and
adds mail from that broker and from the peers that it forwards to (`deliverWithin_eq`). Forwards go
one broker deep, however deep they were allowed to go. -/

namespace Geocast

namespace Federation

variable {f : Federation} {address : String} {node : Node}

/-- The mail that a broker's forward to a peer gives rise to. -/
def relayed (f : Federation) (sender : String) (m : BrokerInfo × Payload) : List (Nat × Payload) :=
  match (f.addressOf? m.1.id).bind f.nodes.get? with
  | some node => routed node.connections (node.broker.handle sender m.2).2.outgoing
  | none => []

/-- The federation after the broker at an address processed a payload and answered it. -/
def handled (f : Federation) (address : String) (node : Node) (sender : String) (p : Payload) :
    Federation :=
  { f with
    nodes := f.nodes.modify address fun n => { n with broker := (node.broker.handle sender p).1 }
    mail := f.mail ++ routed node.connections (node.broker.handle sender p).2.outgoing }

theorem deliverWithin_succ (depth : Nat) (h : f.nodes.get? address = some node) (sender : String)
    (p : Payload) : deliverWithin (depth + 1) f address sender p =
      (node.broker.handle sender p).2.forwards.foldl (fun f m =>
        match f.addressOf? m.1.id with
        | some next => deliverWithin depth f next node.broker.id m.2
        | none => f) (f.handled address node sender p) := by
  rw [deliverWithin, h]
  dsimp only
  rw [Broker.handle_id]
  rfl

/-- A forwarded publication adds mail and does nothing else. -/
theorem deliverWithin_forward (depth : Nat) (h : f.nodes.get? address = some node)
    (sender : String) (q : Publication) (l : Option Location) :
    deliverWithin (depth + 1) f address sender (.forwardPublish q l) = { f with
      mail := f.mail ++
        routed node.connections (node.broker.handle sender (.forwardPublish q l)).2.outgoing } := by
  have hnone : (node.broker.handle sender (.forwardPublish q l)).2.forwards = [] :=
    node.broker.receiveForward_forwards sender q l
  have hsame : f.nodes.modify address (fun n => { n with broker := node.broker }) = f.nodes := by
    refine Table.modify_eq_self fun n hn => ?_
    obtain rfl := Option.some.inj (h.symm.trans hn)
    rfl
  rw [deliverWithin_succ depth h, hnone, List.foldl_nil, handled]
  exact congrArg (Federation.mk · f.opened _ f.clock f.calendar) hsame

theorem foldl_forwards (depth : Nat) (sender : String) (ms : List (BrokerInfo × Payload))
    (hms : ∀ m ∈ ms, ∃ q l, m.2 = .forwardPublish q l) (f : Federation) :
    ms.foldl (fun f m =>
        match f.addressOf? m.1.id with
        | some next => deliverWithin (depth + 1) f next sender m.2
        | none => f) f = { f with mail := f.mail ++ ms.flatMap (f.relayed sender) } := by
  induction ms generalizing f with
  | nil => simp
  | cons m ms ih =>
    obtain ⟨⟨q, l, hm⟩, hms⟩ := List.forall_mem_cons.1 hms
    have hstep : (match f.addressOf? m.1.id with
        | some next => deliverWithin (depth + 1) f next sender m.2
        | none => f) = { f with mail := f.mail ++ f.relayed sender m } := by
      unfold relayed
      cases ha : f.addressOf? m.1.id with
      | none => simp
      | some next =>
        rw [Option.bind_some]
        cases hn : f.nodes.get? next with
        | none =>
          dsimp only
          rw [deliverWithin, hn, List.append_nil]
        | some node =>
          dsimp only
          rw [hm, deliverWithin_forward depth hn]
    rw [List.foldl_cons, hstep, ih hms, List.flatMap_cons, List.append_assoc]
    rfl

/-- What a delivery does to a federation: the broker at the address processes the payload, and the
peers that it forwards to answer. -/
theorem deliverWithin_eq (depth : Nat) (h : f.nodes.get? address = some node) (sender : String)
    (p : Payload) : deliverWithin (depth + 2) f address sender p =
      { f.handled address node sender p with
        mail := (f.handled address node sender p).mail ++
          (node.broker.handle sender p).2.forwards.flatMap
            ((f.handled address node sender p).relayed node.broker.id) } := by
  rw [deliverWithin_succ _ h, foldl_forwards depth _ _ fun m hm => Broker.forwards_publications hm]

/-- Two brokers deep is as far as any delivery goes. -/
theorem deliverWithin_eq_deliver (depth : Nat) (f : Federation) (address sender : String)
    (p : Payload) : deliverWithin (depth + 2) f address sender p = f.deliver address sender p := by
  rw [deliver]
  cases h : f.nodes.get? address with
  | none => simp only [deliverWithin, h]
  | some node => rw [deliverWithin_eq depth h, deliverWithin_eq 0 h]

/-- Only the broker at the address changes. -/
theorem deliver_nodes (h : f.nodes.get? address = some node) (sender : String) (p : Payload) :
    (f.deliver address sender p).nodes =
      f.nodes.modify address fun n => { n with broker := (node.broker.handle sender p).1 } := by
  rw [deliver, deliverWithin_eq 0 h]
  rfl

theorem deliver_mail (h : f.nodes.get? address = some node) (sender : String) (p : Payload) :
    (f.deliver address sender p).mail = f.mail ++
      (routed node.connections (node.broker.handle sender p).2.outgoing ++
        (node.broker.handle sender p).2.forwards.flatMap
          ((f.handled address node sender p).relayed node.broker.id)) := by
  rw [deliver, deliverWithin_eq 0 h, ← List.append_assoc]
  rfl

theorem deliver_of_none (h : f.nodes.get? address = none) (sender : String) (p : Payload) :
    f.deliver address sender p = f := by
  rw [deliver, deliverWithin, h]

@[simp] theorem deliver_opened (f : Federation) (address sender : String) (p : Payload) :
    (f.deliver address sender p).opened = f.opened := by
  cases h : f.nodes.get? address with
  | none => rw [deliver_of_none h]
  | some node =>
    rw [deliver, deliverWithin_eq 0 h]
    rfl

end Federation

end Geocast
