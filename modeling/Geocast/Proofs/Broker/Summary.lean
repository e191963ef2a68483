import Geocast.Proofs.Broker.Policy

/-! # Acknowledgements sum up

A broker that knows where a client is acknowledges what the client publishes by one code for
deliveries and forwards together. The code is computed from the result of local matching and from
what is forwarded; still it says what the dispatch holds (`acknowledgement_sums_up`). So a client
that is told that nobody got its publication need not wait for anybody to answer it. -/

namespace Geocast

namespace Dispatch

/-- The messages of a dispatch that deliver a publication. -/
def deliveries (d : Dispatch) : List (String × Payload) :=
  d.outgoing.filter fun m => m.2.kind = .publish

end Dispatch

namespace Broker

variable {b : Broker} {c : String} {l : Location} {p : Publication}

/-- The deliveries are what matching found, and the acknowledgement comes behind them. -/
theorem publishFrom_deliveries (b : Broker) (c : String) (l : Location) (p : Publication) :
    (b.publishFrom c l p).deliveries = (b.delivered l p).outgoing := by
  obtain ⟨reason, houtgoing⟩ := b.publishFrom_outgoing c l p
  have hdelivered : (b.delivered l p).outgoing.filter (fun m => m.2.kind = .publish) =
      (b.delivered l p).outgoing :=
    List.filter_eq_self.2 fun m hm => by simp [mem_delivered hm, Payload.kind]
  rw [Dispatch.deliveries, houtgoing, List.filter_append, hdelivered]
  exact List.append_nil _

/-- Nothing is delivered where the geofence does not reach. -/
theorem delivered_of_out_of_reach (h : ¬ b.atlas.reaches p.geofence) :
    (b.delivered l p).outgoing = [] := by
  rw [delivered, if_neg h]
  rfl

/-- What each code says of deliveries and forwards. -/
theorem summary_iff (found : List (String × Payload)) (forwards : List (BrokerInfo × Payload)) :
    let code :=
      if matchResult ⟨found, []⟩ = .noMatchingSubscribers && !forwards.isEmpty then
        ReasonCode.noMatchingSubscribersButForwarded
      else matchResult ⟨found, []⟩
    (code = .success ↔ found ≠ []) ∧
    (code = .noMatchingSubscribersButForwarded ↔ found = [] ∧ forwards ≠ []) ∧
    (code = .noMatchingSubscribers ↔ found = [] ∧ forwards = []) := by
  cases found with
  | nil => cases forwards <;> simp [matchResult]
  | cons m found => simp [matchResult]

/-- The acknowledgement of a publication, by a client whose location `l` the broker knows, comes
behind the deliveries, and nothing else is sent. It says whether there are deliveries, and if there
are none, whether there are forwards. What is forwarded is nothing, or the publication as it is,
with `l`, to the peers whose areas its geofence intersects, in their order. Nothing is delivered if
the geofence does not intersect the own area. -/
theorem acknowledgement_sums_up (hl : b.roster.location? c = some l) (p : Publication) :
    let d := (b.handle c (.publish p)).2
    (∃ code, d.outgoing = d.deliveries ++ [(c, .pubAck code)] ∧
      (code = .success ↔ d.deliveries ≠ []) ∧
      (code = .noMatchingSubscribersButForwarded ↔ d.deliveries = [] ∧ d.forwards ≠ []) ∧
      (code = .noMatchingSubscribers ↔ d.deliveries = [] ∧ d.forwards = [])) ∧
    (∀ m ∈ d.deliveries, m.2 = .publish p) ∧
    (d.forwards = [] ∨ d.forwards = (b.atlas.others.filter (·.area.intersects p.geofence)).map
      fun o => (o.broker, .forwardPublish p (some l))) ∧
    (¬ b.atlas.own.area.intersects p.geofence → d.deliveries = []) := by
  intro d
  have hd : d = b.publishFrom c l p := congrArg Prod.snd (handle_publish hl p)
  rw [hd, publishFrom_deliveries]
  refine ⟨⟨_, publishFrom_acked b c l p, ?_⟩, fun m hm => mem_delivered hm, ?_,
    delivered_of_out_of_reach⟩
  · exact summary_iff (b.delivered l p).outgoing (b.publishFrom c l p).forwards
  · rw [publishFrom_forwards]
    split
    · exact .inl rfl
    · exact .inr (List.map_map ..)

/-- A call of a car reaches a service node in the city. Another one, that nobody in the city serves,
goes to the root and no further, and the car is told so. -/
theorem sieveFrames_told :
    let b := (start (.view cityAndRoot cityAndRoot[0]) .forwardAll).after sieveFrames
    let sent (topic : Topic) : Dispatch := (b.handle "car" (.publish ⟨topic, .world, "100"⟩)).2
    (b.roster.location? "car").isSome ∧
    (∃ m, (sent ⟨"sieve/call"⟩).outgoing = [m, ("car", .pubAck .success)]) ∧
    (sent ⟨"sort/call"⟩).outgoing = [("car", .pubAck .noMatchingSubscribersButForwarded)] := by
  intro b sent
  have hlocated : (b.roster.location? "car").isSome := by decide +kernel
  have hone : (sent ⟨"sieve/call"⟩).deliveries.length = 1 := by decide +kernel
  have hnone : (sent ⟨"sort/call"⟩).deliveries.isEmpty := by decide +kernel
  have hforwards : (sent ⟨"sort/call"⟩).forwards.isEmpty = false := by decide +kernel
  obtain ⟨l, hl⟩ := Option.isSome_iff_exists.1 hlocated
  refine ⟨hlocated, ?_, ?_⟩
  · obtain ⟨⟨code, houtgoing, hsuccess, -, -⟩, -⟩ :=
      acknowledgement_sums_up hl ⟨⟨"sieve/call"⟩, .world, "100"⟩
    obtain ⟨m, hm⟩ := List.length_eq_one_iff.1 hone
    obtain rfl := hsuccess.2 (hm ▸ List.cons_ne_nil m [])
    exact ⟨m, by rw [houtgoing, hm]; rfl⟩
  · obtain ⟨⟨code, houtgoing, -, hforwarded, -⟩, -⟩ :=
      acknowledgement_sums_up hl ⟨⟨"sort/call"⟩, .world, "100"⟩
    have hnone := List.isEmpty_iff.1 hnone
    obtain rfl := hforwarded.2 ⟨hnone, List.isEmpty_eq_false_iff.1 hforwards⟩
    rw [houtgoing, hnone]
    rfl

end Broker

end Geocast
