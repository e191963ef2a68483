import Geocast.Proofs.Broker.Answer
import Geocast.Proofs.Broker.Coherence
import Geocast.Proofs.Broker.Responsibility

/-! # Clients do not interfere through a broker

All clients of a broker share its index and the counter that numbers their subscriptions. Still the
broker serves each client as a machine of its own, `Account.serve`, which knows the areas and the
client's own `Account`: where it is and what it is subscribed to, without the numbers. As long as
the clients make no publications, what one of them gets to see is what this machine makes of its
own payloads (`after_serveAll`), however the payloads of the others come in between. -/

namespace Geocast

/-- What a broker knows of a client, but for the numbers of its subscriptions. -/
structure Account where
  location : Option Location
  geofence? : Topic → Option Geofence

def ClientRecord.account (record : ClientRecord) : Account :=
  ⟨record.location, fun t => (record.subscriptions.get? t).map (·.geofence)⟩

namespace Account

/-- A single client at a broker: the account and the replies that a payload leads to. -/
def serve (a : Atlas) (old : Option Account) : Payload → Option Account × List Payload
  | .connect l =>
    if a.isResponsibleFor l then
      match old with
      | none => (some ⟨l, fun _ => none⟩, [.connAck .success])
      | some _ => (none, [.disconnect .protocolError none])
    else (none, [.disconnect .wrongBroker (a.peerFor? l)])
  | .disconnect .. => (none, [])
  | .pingReq l =>
    if a.isResponsibleFor l then
      match old with
      | none => (none, [.pingResp .notConnectedOrNoLocation])
      | some account => (some { account with location := l }, [.pingResp .locationUpdated])
    else (none, [.disconnect .wrongBroker (a.peerFor? l)])
  | .subscribe t g =>
    match old with
    | none => (none, [.subAck .notConnectedOrNoLocation])
    | some account =>
      (some { account with geofence? := fun t' => if t = t' then some g else account.geofence? t' },
        [.subAck .grantedQoS0])
  | .unsubscribe t =>
    match old.bind (·.geofence? t) with
    | none => (old, [.unsubAck .noSubscriptionExisted])
    | some _ =>
      (old.map fun account => { account with
          geofence? := fun t' => if t = t' then none else account.geofence? t' },
        [.unsubAck .success])
  | _ => (old, [])

/-- A single client at a broker, payload by payload. -/
def serveAll (a : Atlas) : Option Account → List Payload → Option Account × List Payload
  | old, [] => (old, [])
  | old, p :: ps =>
    ((serveAll a (serve a old p).1 ps).1, (serve a old p).2 ++ (serveAll a (serve a old p).1 ps).2)

end Account

/-- The payloads that one sender contributed to a sequence. -/
def payloadsOf (c : String) (frames : List Frame) : List Payload :=
  (frames.filter (·.sender = c)).map (·.payload)

theorem payloadsOf_cons (c : String) (f : Frame) (fs : List Frame) :
    payloadsOf c (f :: fs) =
      if f.sender = c then f.payload :: payloadsOf c fs else payloadsOf c fs := by
  simp only [payloadsOf, List.filter_cons, decide_eq_true_eq]
  split <;> rfl

theorem mem_payloadsOf {f : Frame} {frames : List Frame} (h : f ∈ frames) :
    f.payload ∈ payloadsOf f.sender frames :=
  List.mem_map_of_mem (List.mem_filter.2 ⟨h, by simp⟩)

namespace Broker

variable {b b' : Broker} {c y : String} {p : Payload}

def account? (b : Broker) (c : String) : Option Account := (b.record? c).map (·.account)

/-- What a client is sent while a broker processes payloads one after another. -/
def sentDuring (b : Broker) (frames : List Frame) (c : String) : List Payload :=
  match frames with
  | [] => []
  | f :: fs => (b.handle f.sender f.payload).2.sentTo c
      ++ (b.handle f.sender f.payload).1.sentDuring fs c

theorem geofence?_account (b : Broker) (c : String) (t : Topic) :
    (b.account? c).bind (·.geofence? t) = (b.roster.subscription? c t).map (·.geofence) := by
  rw [account?, Roster.subscription?, record?]
  cases b.roster.clients.get? c <;> rfl

theorem contains_account (b : Broker) (c : String) :
    b.roster.contains c = (b.account? c).isSome := Option.isSome_map.symm

theorem location?_account (b : Broker) (c : String) :
    b.roster.location? c = (b.account? c).bind (·.location) := by
  rw [account?, Roster.location?, record?]
  cases b.roster.clients.get? c <;> rfl

/-! ## One payload -/

@[simp] theorem sentTo_send (c : String) (r : Payload) : (Dispatch.send c r).sentTo c = [r] := by
  simp [Dispatch.sentTo, Dispatch.send]

theorem sentTo_send_other (hne : c ≠ y) (r : Payload) : (Dispatch.send c r).sentTo y = [] := by
  simp [Dispatch.sentTo, Dispatch.send, hne]

theorem account?_evict (b : Broker) (c : String) : (b.evict c).account? c = none := by
  rw [account?, evict_record?, if_pos rfl, Option.map_none]

theorem redirect_serve (b : Broker) (c : String) (l : Option Location) :
    ((b.redirect c l).1.account? c, (b.redirect c l).2.sentTo c) =
      (none, [.disconnect .wrongBroker (b.atlas.peerFor? l)]) := by
  rw [redirect, account?_evict, sentTo_send]

theorem connect_serve (b : Broker) (c : String) (l : Option Location) :
    ((b.connect c l).1.account? c, (b.connect c l).2.sentTo c) =
      Account.serve b.atlas (b.account? c) (.connect l) := by
  simp only [connect, Account.serve]
  split
  · cases hold : b.roster.clients.get? c with
    | none =>
      rw [(Roster.add?_eq_some (l := l)).2 ⟨hold, rfl⟩, sentTo_send]
      simp only [account?, record?, hold, Table.get?_insert, if_true, Option.map_none,
        Option.map_some]
      rfl
    | some record =>
      rw [(Roster.add?_eq_none (l := l)).2 (Option.isSome_of_eq_some hold), account?_evict,
        sentTo_send]
      simp only [account?, record?, hold, Option.map_some]
  · exact b.redirect_serve c l

theorem ping_serve (b : Broker) (c : String) (l : Option Location) :
    ((b.ping c l).1.account? c, (b.ping c l).2.sentTo c) =
      Account.serve b.atlas (b.account? c) (.pingReq l) := by
  simp only [ping, Account.serve]
  split
  · cases hold : b.roster.clients.get? c with
    | none =>
      rw [(Roster.relocate?_eq_none (l := l)).2 hold, sentTo_send]
      simp only [account?, record?, hold, Option.map_none]
    | some record =>
      rw [(Roster.relocate?_eq_some (l := l)).2 ⟨Option.isSome_of_eq_some hold, rfl⟩, sentTo_send]
      simp only [account?, record?, hold, Table.get?_modify, if_true, Option.map_some]
      rfl
  · exact b.redirect_serve c l

theorem subscribe_serve (b : Broker) (c : String) (t : Topic) (g : Geofence) :
    ((b.subscribe c t g).1.account? c, (b.subscribe c t g).2.sentTo c) =
      Account.serve b.atlas (b.account? c) (.subscribe t g) := by
  simp only [subscribe, Account.serve]
  cases hold : b.roster.clients.get? c with
  | none =>
    rw [(Roster.subscribe?_eq_none (t := t) (g := g)).2 hold, sentTo_send]
    simp only [account?, record?, hold, Option.map_none]
  | some record =>
    rw [(Roster.subscribe?_eq_some (t := t) (g := g)).2
      ⟨Option.isSome_of_eq_some hold, rfl, rfl⟩, sentTo_send]
    simp only [account?, record?, hold, Table.get?_modify, if_true, Option.map_some,
      ClientRecord.account, Table.get?_insert, apply_ite (Option.map Subscription.geofence)]

theorem unsubscribe_serve (b : Broker) (c : String) (t : Topic) :
    ((b.unsubscribe c t).1.account? c, (b.unsubscribe c t).2.sentTo c) =
      Account.serve b.atlas (b.account? c) (.unsubscribe t) := by
  simp only [unsubscribe, Account.serve, geofence?_account]
  cases hheld : b.roster.subscription? c t with
  | none => rw [Roster.unsubscribe?_eq_none.2 hheld, sentTo_send]; rfl
  | some s =>
    rw [Roster.unsubscribe?_eq_some.2 ⟨hheld, rfl⟩, sentTo_send]
    simp only [account?, record?, Table.get?_modify, if_true, Option.map_some, Option.map_map]
    congr 2
    funext record
    simp only [Function.comp, ClientRecord.account, Table.get?_erase,
      apply_ite (Option.map Subscription.geofence), Option.map_none]

/-- To the client that sends a payload the broker is a machine of its own. -/
theorem handle_serve (b : Broker) (c : String) (hp : p.IsPersonal) :
    ((b.handle c p).1.account? c, (b.handle c p).2.sentTo c) =
      Account.serve b.atlas (b.account? c) p := by
  cases p with
  | connect l => exact b.connect_serve c l
  | disconnect => exact congrArg (·, []) (b.account?_evict c)
  | pingReq l => exact b.ping_serve c l
  | subscribe t g => exact b.subscribe_serve c t g
  | unsubscribe t => exact b.unsubscribe_serve c t
  | _ => exact hp.elim

/-- The other clients keep their accounts and are sent nothing. -/
theorem handle_other (b : Broker) (hp : p.IsPersonal) (hne : c ≠ y) :
    (b.handle c p).1.account? y = b.account? y ∧ (b.handle c p).2.sentTo y = [] := by
  refine ⟨by rw [account?, account?, (b.handle_change c p).record?_other hne], ?_⟩
  rcases b.handle_personal c hp with h | ⟨r, h, -⟩ <;> rw [h]
  · rfl
  · exact sentTo_send_other hne r

/-! ## Runs -/

/-- A client sees what the machine of its own makes of its payloads. -/
theorem after_serveAll (c : String) {frames : List Frame} (b : Broker)
    (hp : ∀ f ∈ frames, f.payload.IsPersonal) :
    ((b.after frames).account? c, b.sentDuring frames c) =
      Account.serveAll b.atlas (b.account? c) (payloadsOf c frames) := by
  induction frames generalizing b with
  | nil => rfl
  | cons f fs ih =>
    obtain ⟨hf, hfs⟩ := List.forall_mem_cons.1 hp
    have ih := ih (b.handle f.sender f.payload).1 hfs
    rw [(b.handle_change _ _).atlas] at ih
    obtain ⟨haccount, hsent⟩ := Prod.mk.inj ih
    rw [after_cons, sentDuring, haccount, hsent]
    by_cases hc : f.sender = c
    · subst hc
      obtain ⟨hnew, hreply⟩ := Prod.mk.inj (b.handle_serve f.sender hf)
      rw [hnew, hreply, payloadsOf_cons, if_pos rfl]
      rfl
    · obtain ⟨hnew, hreply⟩ := b.handle_other hf hc
      rw [hnew, hreply, payloadsOf_cons, if_neg hc]
      rfl

/-! ## The numbers of subscriptions -/

/-- How many subscriptions replies grant. -/
def granted (replies : List Payload) : Nat :=
  replies.countP fun r => r.reason? = some .grantedQoS0

theorem granted_append (replies replies' : List Payload) :
    granted (replies ++ replies') = granted replies + granted replies' := List.countP_append

/-- A client is told of the ids that are given to it. -/
theorem map_minted? (b : Broker) (c : String) (hp : p.IsPersonal) :
    (b.minted? c p).toList.map (·.clientId) =
      List.replicate (granted ((b.handle c p).2.sentTo c)) c := by
  cases p with
  | connect l | pingReq l =>
    simp only [handle, connect, ping]
    split
    · split <;> (rw [sentTo_send]; rfl)
    · rw [redirect, sentTo_send]; rfl
  | disconnect => rfl
  | subscribe t g =>
    cases h : b.roster.subscribe? c t g with
    | none =>
      simp only [handle, subscribe, minted?, h, sentTo_send]
      rfl
    | some e =>
      obtain ⟨-, hs, -⟩ := Roster.subscribe?_eq_some.1 h
      simp only [handle, subscribe, minted?, h, sentTo_send, Option.map_some, hs]
      rfl
  | unsubscribe t =>
    simp only [handle, unsubscribe]
    split <;> (rw [sentTo_send]; rfl)
  | _ => exact hp.elim

theorem count_mintedIn (y : String) {frames : List Frame} (b : Broker)
    (hp : ∀ f ∈ frames, f.payload.IsPersonal) :
    ((b.mintedIn frames).map (·.clientId)).count y = granted (b.sentDuring frames y) := by
  induction frames generalizing b with
  | nil => rfl
  | cons f fs ih =>
    obtain ⟨hf, hfs⟩ := List.forall_mem_cons.1 hp
    rw [mintedIn, sentDuring, List.map_append, List.count_append, ih _ hfs, b.map_minted? _ hf,
      List.count_replicate, granted_append]
    by_cases hy : f.sender = y
    · subst hy
      rw [if_pos (beq_self_eq_true _)]
    · rw [if_neg (by simpa using hy), (b.handle_other hf hy).2]
      rfl

/-! ## Two runs -/

/-- The index files a subscription of a client, whatever its number. -/
theorem Coherent.filed_account (H : Coherent b) {c : String} {t : Topic} {g : Geofence} :
    (∃ n, b.index.get? ⟨c, n⟩ t = some g) ↔ (b.account? c).bind (·.geofence? t) = some g := by
  rw [geofence?_account, Option.map_eq_some_iff]
  constructor
  · rintro ⟨n, hn⟩
    obtain ⟨c', hs⟩ := H.filed.1 hn
    obtain rfl : c = c' := H.owner hs
    exact ⟨_, hs, rfl⟩
  · rintro ⟨s, hs, rfl⟩
    refine ⟨s.id.seq, H.filed.2 ⟨c, ?_⟩⟩
    rw [show (⟨c, s.id.seq⟩ : SubscriptionId) = s.id by rw [← H.owner hs], hs, ← H.topic hs]

/-- Two brokers without clients process sequences in which each client contributes the same
payloads of its own in the same order, but which mix the clients differently. Then every client is
sent the same replies in the same order, and in the end the brokers know the same clients at the
same locations, with subscriptions that differ in their numbers at most; the indexes hold the same
triples of client, topic and geofence, and as many numbers have been given. -/
theorem interleaving_unseen (atlas : Atlas) (policy : ForwardingPolicy)
    {frames frames' : List Frame} (hp : ∀ f ∈ frames, f.payload.IsPersonal)
    (hsame : ∀ c, payloadsOf c frames' = payloadsOf c frames) :
    let b := (start atlas policy).after frames
    let b' := (start atlas policy).after frames'
    (∀ c, (start atlas policy).sentDuring frames' c = (start atlas policy).sentDuring frames c) ∧
    (∀ c, b'.roster.contains c = b.roster.contains c ∧
      b'.roster.location? c = b.roster.location? c) ∧
    (∀ c t, ∃ n, b'.roster.subscription? c t = (b.roster.subscription? c t).map fun s =>
      { s with id := { s.id with seq := n } }) ∧
    (∀ c t g, (∃ n, b'.index.get? ⟨c, n⟩ t = some g) ↔ ∃ n, b.index.get? ⟨c, n⟩ t = some g) ∧
    b'.roster.lastSeq = b.roster.lastSeq := by
  intro b b'
  have hp' : ∀ f ∈ frames', f.payload.IsPersonal := fun f hf => by
    have hmem := mem_payloadsOf hf
    rw [hsame] at hmem
    obtain ⟨f₀, hf₀, hpayload⟩ := List.mem_map.1 hmem
    exact hpayload ▸ hp f₀ (List.mem_filter.1 hf₀).1
  have hview (c : String) : (b'.account? c, (start atlas policy).sentDuring frames' c) =
      (b.account? c, (start atlas policy).sentDuring frames c) := by
    rw [after_serveAll c _ hp, after_serveAll c _ hp', hsame]
  have haccount (c : String) : b'.account? c = b.account? c := (Prod.mk.inj (hview c)).1
  have hsent (c : String) := (Prod.mk.inj (hview c)).2
  have H : Coherent b := coherent_after ..
  have H' : Coherent b' := coherent_after ..
  refine ⟨hsent, fun c => ?_, fun c t => ?_, fun c t g => ?_, ?_⟩
  · rw [contains_account, contains_account, location?_account, location?_account, haccount]
    exact ⟨rfl, rfl⟩
  · have hgeofence : (b'.roster.subscription? c t).map (·.geofence) =
        (b.roster.subscription? c t).map (·.geofence) := by
      rw [← geofence?_account, ← geofence?_account, haccount]
    cases hs : b.roster.subscription? c t with
    | none => exact ⟨0, Option.map_eq_none_iff.1 (hs ▸ hgeofence)⟩
    | some s =>
      obtain ⟨s', hs', hg⟩ := Option.map_eq_some_iff.1 (hs ▸ hgeofence)
      refine ⟨s'.id.seq, hs'.trans (congrArg some ?_)⟩
      have howner := (H'.owner hs').trans (H.owner hs).symm
      have htopic := (H'.topic hs').trans (H.topic hs).symm
      obtain ⟨⟨_, _⟩, _, _⟩ := s
      obtain ⟨⟨_, _⟩, _, _⟩ := s'
      cases howner
      cases htopic
      cases hg
      rfl
  · rw [H'.filed_account, H.filed_account, haccount]
  · have hcount : ((start atlas policy).mintedIn frames').map (·.clientId) |>.Perm
        (((start atlas policy).mintedIn frames).map (·.clientId)) := by
      refine List.perm_iff_count.2 fun c => ?_
      rw [count_mintedIn c _ hp', count_mintedIn c _ hp, hsent]
    rw [lastSeq_after, lastSeq_after, ← List.length_map (·.clientId), hcount.length_eq,
      List.length_map]

/-- A car and a van register in the city and subscribe, the car first. -/
def carFirst : List Frame :=
  [⟨"car", .connect (some ⟨52.5, 13.4⟩)⟩, ⟨"car", .subscribe ⟨"jams"⟩ .world⟩,
    ⟨"van", .connect (some ⟨52.25, 13.75⟩)⟩, ⟨"van", .subscribe ⟨"jams"⟩ .world⟩]

/-- The same with the payloads of both mixed. -/
def mixed : List Frame :=
  [⟨"van", .connect (some ⟨52.25, 13.75⟩)⟩, ⟨"car", .connect (some ⟨52.5, 13.4⟩)⟩,
    ⟨"van", .subscribe ⟨"jams"⟩ .world⟩, ⟨"car", .subscribe ⟨"jams"⟩ .world⟩]

/-- Both are told the same, although the subscription of the car gets another number. -/
theorem mixed_unseen :
    let b := start (.view cityAndRoot cityAndRoot[0]) .forwardAll
    (∀ f ∈ carFirst, f.payload.IsPersonal) ∧
    (∀ c, payloadsOf c mixed = payloadsOf c carFirst) ∧
    (∀ c, b.sentDuring mixed c = b.sentDuring carFirst c) ∧
    ((b.after carFirst).roster.subscription? "car" ⟨"jams"⟩).map (·.id.seq) = some 1 ∧
    ((b.after mixed).roster.subscription? "car" ⟨"jams"⟩).map (·.id.seq) = some 2 := by
  have hp : ∀ f ∈ carFirst, f.payload.IsPersonal := by simp [carFirst, Payload.IsPersonal]
  have hsame (c : String) : payloadsOf c mixed = payloadsOf c carFirst := by
    by_cases hcar : "car" = c
    · subst hcar; rfl
    · by_cases hvan : "van" = c
      · subst hvan; rfl
      · simp [payloadsOf, mixed, carFirst, hcar, hvan]
  exact ⟨hp, hsame, (interleaving_unseen _ _ hp hsame).1, by decide +kernel, by decide +kernel⟩

end Broker

end Geocast
