import Geocast.Proofs.Session.Numbering

/-! # No publication is lost

What a channel delivers is handed to the application or parked. `Conveys` says for one stretch of a
session that the publications parked before and those delivered since are those handed out and
those still parked, in this order. Every request conveys publications without handing out any,
whichever way it ends, and every call for the next publication hands out what it returns
(`operation_conveys`); so a run of them conveys all (`publications_conserved`). -/

namespace Geocast

/-- The publication that an event took off the channel numbered `n`. -/
def WireEvent.publication? (n : Nat) : WireEvent → Option Publication
  | received m p => if m = n then p.publication? else none
  | _ => none

/-- The publications that the channel numbered `n` delivered, the first one first. -/
def deliveredOn (n : Nat) (events : List WireEvent) : List Publication :=
  (events.filterMap (·.publication? n)).reverse

/-- No publication is filed among the replies. -/
def Inbox.Sorted (i : Inbox) : Prop := ∀ p ∈ i.replies, p.kind ≠ .publish

/-- The publication that an operation returned. -/
def Operation.returned? : (o : Operation) × Except SessionError o.Result → Option Publication
  | ⟨.nextPublication _, .ok p⟩ => p
  | _ => none

/-- The operations that send a request or take a publication, and no more. -/
def Operation.IsPlain : Operation → Prop
  | request _ | nextPublication _ => True
  | _ => False

instance : DecidablePred Operation.IsPlain
  | .request _ | .nextPublication _ => .isTrue trivial
  | .connect _ | .disconnect | .listen .. | .call _ => .isFalse id

section
variable {n : Nat} {events events' : List WireEvent}

theorem deliveredOn_append : deliveredOn n (events' ++ events) =
    deliveredOn n events ++ deliveredOn n events' := by
  simp [deliveredOn]

/-- Events about other channels deliver nothing. -/
theorem deliveredOn_eq_nil (h : ∀ e ∈ events, e.channel? ≠ some n) : deliveredOn n events = [] := by
  have hnone : events.filterMap (·.publication? n) = [] := by
    refine List.filterMap_eq_nil_iff.2 fun e he => ?_
    have hne := h e he
    cases e with
    | received m p => exact if_neg fun hm => hne (congrArg some hm)
    | _ => rfl
  rw [deliveredOn, hnone, List.reverse_nil]

theorem Payload.publication?_eq_none {p : Payload} (h : p.kind ≠ .publish) :
    p.publication? = none := by
  cases p with
  | publish => exact absurd rfl h
  | _ => rfl

end

namespace Inbox

variable {i : Inbox}

theorem publications_park (i : Inbox) (p : Payload) :
    (i.park p).publications = i.publications ++ p.publication?.toList := by
  cases p <;> simp [park, Payload.publication?]

theorem Sorted.park (H : i.Sorted) (p : Payload) : (i.park p).Sorted := by
  cases p with
  | publish => exact H
  | _ =>
    intro q hq
    rcases List.mem_append.1 hq with hq | hq
    · exact H q hq
    · cases List.mem_singleton.1 hq
      exact nofun

/-- What is taken out of an inbox is gone from it, and its publications stay in order. -/
theorem publications_of_take? {expected : List PayloadKind} {p : Payload} {i' : Inbox}
    (H : .publish ∈ expected → i.Sorted) (h : i.take? expected = some (p, i')) :
    p.kind ∈ expected ∧ i.publications = p.publication?.toList ++ i'.publications ∧
      (i.Sorted → i'.Sorted) := by
  rcases take?_cases h with ⟨hfound, rfl⟩ | ⟨-, hpub, q, ps, rfl, hps, rfl⟩
  · have hexpected : p.kind ∈ expected := by simpa using List.find?_some hfound
    have hkind : p.kind ≠ .publish := fun hp =>
      H (hp ▸ hexpected) p (List.mem_of_find?_eq_some hfound) hp
    rw [Payload.publication?_eq_none hkind]
    exact ⟨hexpected, rfl, fun hs q hq => hs q (List.mem_of_mem_eraseP hq)⟩
  · exact ⟨hpub, hps, fun hs => hs⟩

end Inbox

namespace Session

variable {W : Wire} {s s' s'' : Session W} {n : Nat} {out out' : List Publication}
  {expected : List PayloadKind}

/-- From `s` to `s'` the session handed out the publications `out`: these and those parked at the
end are those parked at the beginning and those that the channel numbered `n` delivered. -/
structure Conveys (n : Nat) (out : List Publication) (s s' : Session W) : Prop where
  conserved : ∃ events, s'.history = events ++ s.history ∧
    s.inbox.publications ++ deliveredOn n events = out ++ s'.inbox.publications
  sorted : s.inbox.Sorted → s'.inbox.Sorted

namespace Conveys

/-- What neither receives nor touches the inbox. -/
theorem idle (hh : s'.history = s.history) (hi : s'.inbox = s.inbox) : Conveys n [] s s' :=
  ⟨⟨[], hh, by rw [hi]; exact List.append_nil _⟩, fun h => hi ▸ h⟩

theorem trans (H : Conveys n out s s') (H' : Conveys n out' s' s'') :
    Conveys n (out ++ out') s s'' := by
  obtain ⟨events, hh, hc⟩ := H.conserved
  obtain ⟨events', hh', hc'⟩ := H'.conserved
  refine ⟨⟨events' ++ events, ?_, ?_⟩, fun h => H'.sorted (H.sorted h)⟩
  · rw [hh', hh, List.append_assoc]
  · rw [deliveredOn_append, ← List.append_assoc, hc, List.append_assoc, hc', List.append_assoc]

end Conveys

/-! ## Sending and waiting -/

/-- A payload that comes in is handed out or parked. -/
theorem conveys_got (s : Session W) (p : Payload) (w : W.State) :
    (s.inbox.publications = [] → Conveys n p.publication?.toList s (s.got n p w)) ∧
    Conveys n [] s { s.got n p w with inbox := s.inbox.park p } := by
  have hone : deliveredOn n [.received n p] = p.publication?.toList := by
    cases h : p.publication? <;> simp [deliveredOn, WireEvent.publication?, h]
  constructor
  · intro hnone
    refine ⟨⟨[.received n p], rfl, ?_⟩, fun h => h⟩
    simp [hone, hnone, got]
  · refine ⟨⟨[.received n p], rfl, ?_⟩, fun h => h.park p⟩
    rw [hone]
    exact (s.inbox.publications_park p).symm

/-- A wait hands out the publication that it accepts, if these are expected, and parks those that
come before. -/
theorem Reception.conveys {deadline : Nat} {l : Link W} {r : Except SessionError (Option Payload)}
    (H : Reception (expecting expected) deadline l s r s')
    (hpub : .publish ∈ expected → s.inbox.publications = []) :
    Conveys l.number (r.toOption.join.bind Payload.publication?).toList s s' := by
  induction H with
  | spent | failed | silent => exact .idle rfl rfl
  | @accepted s p w a _ _ hj =>
    unfold expecting at hj
    split at hj
    · next hp =>
      cases hj
      by_cases hkind : p.kind = .publish
      · exact (conveys_got s p w).1 (hpub (hkind ▸ hp))
      · have hnone := Payload.publication?_eq_none hkind
        simp only [Except.toOption, Option.join_some, Option.bind_some, hnone]
        refine ⟨⟨[.received l.number p], rfl, ?_⟩, fun h => h⟩
        simp [deliveredOn, WireEvent.publication?, hnone, got]
    · exact nomatch hj
  | @parked s p w r s' _ _ hj _ ih =>
    have hp : p.kind ∉ expected := by
      unfold expecting at hj
      split at hj
      · exact nomatch hj
      · assumption
    refine (conveys_got s p w).2.trans (ih fun hpub' => ?_)
    have hkind : p.kind ≠ .publish := fun h => hp (h ▸ hpub')
    rw [Inbox.publications_park, Payload.publication?_eq_none hkind, hpub hpub']
    rfl
  | dropped _ _ hj =>
    unfold expecting at hj
    split at hj <;> exact nomatch hj

/-- A wait returns nothing but what it expects. -/
theorem Reception.kind_mem {deadline : Nat} {l : Link W}
    {r : Except SessionError (Option Payload)}
    (H : Reception (expecting expected) deadline l s r s') {p : Payload} (h : r = .ok (some p)) :
    p.kind ∈ expected := by
  induction H with
  | spent | failed | silent => exact nomatch h
  | accepted _ _ hj =>
    cases h
    unfold expecting at hj
    split at hj
    · cases hj
      assumption
    · exact nomatch hj
  | parked _ _ _ _ ih | dropped _ _ _ _ ih => exact ih h

theorem send_conveys (n : Nat) (s : Session W) (p : Payload) :
    Ends s (send p) (fun _ s' => Conveys n [] s s') fun _ s' => Conveys n [] s s' := by
  refine ends_send (fun _ => .idle rfl rfl) (fun l w _ _ => ?_) fun l e w _ _ => ?_
  all_goals
    exact ⟨⟨[.sent l.number l.address p], rfl, List.append_nil _⟩, fun h => h⟩

theorem next?_conveys (hn : s.Uses n) (hs : .publish ∈ expected → s.inbox.Sorted) (budget : Nat) :
    Ends s (next? expected budget)
      (fun p s' => (∀ q, p = some q → q.kind ∈ expected) ∧
        Conveys n (p.bind Payload.publication?).toList s s')
      fun _ s' => Conveys n [] s s' := by
  refine ends_next? (fun p i h => ?_) fun h => ?_
  · obtain ⟨hkind, hpublications, hsorted⟩ := Inbox.publications_of_take? hs h
    refine ⟨?_, ⟨[], rfl, (List.append_nil _).trans hpublications⟩, hsorted⟩
    rintro q ⟨⟩
    exact hkind
  · have hnone := (Inbox.take?_eq_none_iff.1 h).2
    refine ends_receive (fun _ => .idle rfl rfl) (fun l a s' hl H => ?_) fun l e s' hl H => ?_
    · obtain rfl := hn l hl
      exact ⟨fun q hq => H.kind_mem (hq ▸ rfl), H.conveys hnone⟩
    · obtain rfl := hn l hl
      exact H.conveys hnone

/-- A wait for replies hands out no publication. -/
theorem await_conveys (hn : s.Uses n) (hpub : .publish ∉ expected) (budget : Nat)
    (awaited : String) : Ends s (await expected budget awaited) (fun _ s' => Conveys n [] s s')
      fun _ s' => Conveys n [] s s' := by
  rw [await, ends_bind]
  refine (next?_conveys hn (fun h => absurd h hpub) budget).mono ?_ fun _ _ h => h
  rintro p s' ⟨hkind, h⟩
  cases p with
  | none => exact h
  | some p =>
    have hnone : p.publication? = none :=
      Payload.publication?_eq_none fun hp => hpub (hp ▸ hkind p rfl)
    rwa [Option.bind_some, hnone] at h

/-! ## Operations -/

/-- A session that stays on the channel numbered `n`, if its channel is that of `s`. -/
theorem ask_conveys (hn : s.Uses n) (r : Request) :
    Ends s r.ask (fun _ s' => Conveys n [] s s') fun _ s' => Conveys n [] s s' := by
  simp only [Request.ask, ends_bind, ends_get]
  refine ((send_conveys n s _).and (send_traffic hn _)).mono ?_ fun _ _ h => h.1
  rintro _ s₁ ⟨h, ht⟩
  exact (await_conveys (ht.uses hn) r.publish_notMem_replies _ _).mono (fun _ _ h' => h.trans h')
    fun _ _ h' => h.trans h'

theorem RolledBack.conveys (H : RolledBack s s') {l : Link W} (hl : s.link = some l)
    (hs : s.Numbered) : Conveys l.number [] s s' := by
  obtain ⟨events, hh, hledger⟩ := H.events
  refine ⟨⟨events, hh, ?_⟩, fun h => H.inbox ▸ h⟩
  rw [deliveredOn_eq_nil (RolledBack.channel?_ne hl hs hledger), H.inbox]
  exact List.append_nil _

/-- A channel that a chain of redirects led to is not the one that was open before. -/
theorem Moved.link_ne (H : Moved s s') {l : Link W} (hl : s.link = some l) (hs : s.Numbered) :
    s'.link ≠ s.link := by
  intro h
  have hle := (H l (h.trans hl)).1
  have hlt := hs l hl
  omega

/-- What a request does with a reply hands out no publication, if the channel stays. -/
theorem conclude_conveys (r : Request) (p : Payload) {l : Link W} (hl : s.link = some l)
    (hs : s.Numbered) : Ends s (r.conclude p)
      (fun _ s' => s'.link = s.link → Conveys l.number [] s s')
      fun _ s' => s'.link = s.link → Conveys l.number [] s s' := by
  unfold Request.conclude
  split
  case h_6 location _ =>
    simp only [moveTo, ends_bind, ends_modify]
    have hmoved : Conveys l.number [] s { s with location := some location } := .idle rfl rfl
    refine (followRedirects_cases _ _).mono (fun _ s' h hlink => ?_) fun _ s' h _ => ?_
    · exact absurd hlink (Moved.link_ne h hl hs)
    · exact hmoved.trans (h.conveys hl hs)
  case h_7 =>
    simp only [moveTo, ends_bind, ends_modify, ends_closeChannel]
    intro hlink
    rw [closed_link, hl] at hlink
    cases hlink
  all_goals exact fun _ => .idle rfl rfl

theorem perform_conveys (r : Request) {l : Link W} (hl : s.link = some l) (hs : s.Numbered) :
    Ends s r.perform (fun _ s' => s'.link = s.link → Conveys l.number [] s s')
      fun _ s' => s'.link = s.link → Conveys l.number [] s s' := by
  by_cases hr : r.Tracked s
  · exact ends_perform_of_tracked hr fun _ _ => .idle rfl rfl
  · have hn := uses_of_link hl
    refine ends_perform hr (((ask_conveys hn r).and (ask_traffic hn r)).mono ?_ fun _ _ h _ => h.1)
    rintro p s₁ ⟨h, ht⟩
    refine (conclude_conveys r p (ht.link.trans hl) (ht.numbered hs)).mono ?_ ?_
    all_goals
      intro _ s₂ h' hlink
      exact h.trans (h' (hlink.trans ht.link.symm))

theorem nextPublication_conveys (hn : s.Uses n) (hs : s.inbox.Sorted) (budget : Nat) :
    Ends s (nextPublication budget) (fun p s' => Conveys n p.toList s s')
      fun _ s' => Conveys n [] s s' := by
  rw [nextPublication, ends_bind]
  refine (next?_conveys hn (fun _ => hs) budget).mono ?_ fun _ _ h => h
  rintro p s' ⟨-, h⟩
  split
  · exact h
  · next q hq =>
    have hnone : q.publication? = none := Payload.publication?_eq_none fun hkind => by
      cases q with
      | publish p => exact hq p rfl
      | _ => exact nomatch hkind
    rwa [Option.bind_some, hnone] at h
  · exact h

/-- A plain operation that leaves the channel open hands out what it returns. -/
theorem operation_conveys {o : Operation} (ho : o.IsPlain) {l : Link W} (hl : s.link = some l)
    (hs : s.Numbered) (hsorted : s.inbox.Sorted) (hstay : (exec o.perform s).2.link = s.link) :
    Conveys l.number (Operation.returned? ⟨o, (exec o.perform s).1⟩).toList s
      (exec o.perform s).2 := by
  have hn := uses_of_link hl
  cases o with
  | request r =>
    have H := perform_conveys r hl hs
    rcases hr : exec (Operation.request r).perform s with ⟨e | a, s'⟩
    · exact H.error hr (hr ▸ hstay)
    · exact H.ok hr (hr ▸ hstay)
  | nextPublication budget =>
    have H := nextPublication_conveys hn hsorted budget
    rcases hr : exec (Operation.nextPublication budget).perform s with ⟨e | a, s'⟩
    · exact H.error hr
    · exact H.ok hr
  | _ => exact ho.elim

/-! ## Runs -/

/-- A run of plain operations hands out what they return, if the channel stays open. -/
theorem conveys_after {ops : List Operation} (hops : ∀ o ∈ ops, o.IsPlain) {l : Link W}
    (hl : s.link = some l) (hs : s.Numbered) (hsorted : s.inbox.Sorted)
    (hstay : ∀ k, (s.after (ops.take k)).link = s.link) :
    Conveys l.number ((s.outcomes ops).filterMap Operation.returned?) s (s.after ops) := by
  induction ops generalizing s with
  | nil => exact .idle rfl rfl
  | cons o ops ih =>
    obtain ⟨ho, hops⟩ := List.forall_mem_cons.1 hops
    have hlink : (exec o.perform s).2.link = s.link := hstay 1
    have hfirst := operation_conveys ho hl hs hsorted hlink
    have hrest := ih hops (hlink.trans hl) (numbered_after hs [o]) (hfirst.sorted hsorted)
      fun k => (hstay (k + 1)).trans hlink.symm
    have hreturned : (s.outcomes (o :: ops)).filterMap Operation.returned? =
        (Operation.returned? ⟨o, (exec o.perform s).1⟩).toList ++
          ((exec o.perform s).2.outcomes ops).filterMap Operation.returned? := by
      rw [outcomes, List.filterMap_cons]
      split
      · next h => rw [h]; rfl
      · next h => rw [h]; rfl
    rw [hreturned]
    exact hfirst.trans hrest

/-! ## From a registration on -/

/-- A session with an open channel and an inbox in order. -/
structure Ready (s : Session W) : Prop where
  connected : s.isConnected
  sorted : s.inbox.Sorted

theorem askToRegister_ready : Keeps (W := W) Ready (fun _ _ => True) askToRegister := by
  intro s hs
  obtain ⟨n, hn⟩ := s.exists_uses
  simp only [askToRegister, ends_bind, ends_get]
  refine ((send_conveys n s _).and (send_traffic hn _)).mono ?_ fun _ _ _ => trivial
  rintro _ s₁ ⟨h, ht⟩
  refine ((await_conveys (ht.uses hn) (by decide) _ _).and (await_traffic (ht.uses hn) _ _ _)).mono
    ?_ fun _ _ _ => trivial
  rintro p s₂ ⟨h', ht'⟩
  exact ⟨(ht.trans ht').isConnected hs.connected, h'.sorted (h.sorted hs.sorted)⟩

theorem register_ready : Keeps (W := W) Ready (fun _ _ => True) register :=
  registerRetrying_keeps askToRegister_ready (fun _ _ _ => trivial) 1

/-- A channel that was just opened leads to a session that is ready when it is registered. -/
theorem register_ready_of_new (s : Session W) (l : Link W) (address : String) :
    Ends { s.closed with link := some l, address := address } register (fun _ s' => Ready s')
      fun _ _ => True :=
  register_ready _ ⟨rfl, by rw [closed_inbox]; exact nofun⟩

theorem hopUntilAccepted_ready (limit hops : Nat) (target : BrokerInfo) (s : Session W) :
    Ends s (hopUntilAccepted limit hops target) (fun _ s' => Ready s') fun _ _ => True := by
  induction hops generalizing target s with
  | zero => exact trivial
  | succ hops ih =>
    simp only [hopUntilAccepted, handoff, ends_bind, ends_leave, ends_inHandoff, ends_closeChannel,
      ends_modify]
    refine ends_dial (fun c w _ => ?_) fun _ _ _ => trivial
    refine (register_ready_of_new _ _ _).mono (fun a s₁ h => ?_) fun _ _ _ => trivial
    cases a with
    | accepted => exact h
    | redirected next => exact ih next s₁

theorem followRedirects_ready (target : BrokerInfo) (s : Session W) :
    Ends s (followRedirects target) (fun _ s' => Ready s') fun _ _ => True := by
  rw [ends_followRedirects]
  refine (hopUntilAccepted_ready _ _ target _).mono (fun _ s' h => ?_) fun _ _ _ => trivial
  unfold movedFrom
  split <;> exact ⟨h.connected, h.sorted⟩

/-- A session that connected has an open channel, and its inbox is in order. -/
theorem connect_ready (address : String) (s : Session W) :
    Ends s (connect address) (fun _ s' => Ready s') fun _ _ => True := by
  simp only [connect, ends_bind, ends_closeChannel, ends_modify, ends_tryCatch, ends_throw]
  refine ends_dial (fun c w _ => ?_) fun _ _ _ => trivial
  refine (register_ready _ ⟨rfl, ?_⟩).mono (fun a s₁ h => ?_) fun _ _ _ => trivial
  · dsimp only
    rw [closed_inbox]
    exact List.forall_mem_nil _
  · cases a with
    | accepted => exact h
    | redirected next =>
      exact (followRedirects_ready next s₁).mono (fun _ _ h => h) fun _ _ _ => trivial

end Session

/-- Publications are delivered exactly once and in order. In every run of requests and calls for the
next publication that begins when a session has connected, on every wire and whatever the outcomes,
as long as the channel is neither closed nor replaced: the publications parked at the beginning,
followed by those that the channel delivered since, are those that the calls returned, followed by
those parked at the end. -/
theorem publications_conserved {W : Wire} {s₀ s : Session W} {address : String}
    (h : Session.exec (Session.connect address) s₀ = (.ok (), s)) {ops : List Operation}
    (hops : ∀ o ∈ ops, o.IsPlain) (hstay : ∀ k, (s.after (ops.take k)).link = s.link) :
    ∃ l events, s.link = some l ∧ (s.after ops).history = events ++ s.history ∧
      s.inbox.publications ++ deliveredOn l.number events =
        (s.outcomes ops).filterMap Operation.returned? ++ (s.after ops).inbox.publications := by
  have hready : s.Ready := (Session.connect_ready address s₀).ok h
  have hnumbered : s.Numbered := (Session.connect_numbered address s₀).ok h
  obtain ⟨l, hl⟩ := Option.isSome_iff_exists.1 hready.connected
  obtain ⟨events, hhistory, hconserved⟩ :=
    (Session.conveys_after hops hl hnumbered hready.sorted hstay).conserved
  exact ⟨l, events, hl, hhistory, hconserved⟩

/-- A session before it connects to a broker that delivers one publication ahead of its first
acknowledgement and another one ahead of its second. -/
def subscriber : Session Script.wire :=
  .start "c" none ⟨100, 100, 100, 3⟩ (Script.start [] (Table.insert ∅ "a:1"
    [.deliver [(0, .payload (.publish ⟨⟨"x"⟩, .undefined, "1"⟩)),
        (5, .payload (.connAck .success))],
      .deliver [(0, .payload (.publish ⟨⟨"x"⟩, .undefined, "2"⟩)),
        (0, .payload (.pubAck .success))]])
    0)

/-- The subscriber takes the first publication, publishes, takes the second one, and finds no
more. -/
def subscriberRun : List Operation :=
  [.nextPublication 10, .request (.publish ⟨"y"⟩ .undefined ""), .nextPublication 10,
    .nextPublication 10]

/-- One publication was parked and one delivered, and both are returned. -/
theorem subscriber_conserved : ∃ s : Session Script.wire,
    Session.exec (Session.connect "a:1") subscriber = (.ok (), s) ∧ ∃ l events, s.link = some l ∧
      (s.after subscriberRun).history = events ++ s.history ∧
      s.inbox.publications ++ deliveredOn l.number events =
        (s.outcomes subscriberRun).filterMap Operation.returned? ++
          (s.after subscriberRun).inbox.publications ∧
      s.inbox.publications.length = 1 ∧
      ((s.outcomes subscriberRun).filterMap Operation.returned?).length = 2 := by
  have h : Session.exec (Session.connect "a:1") subscriber = (.ok (), _) :=
    Session.exec_of_toOption (by decide +kernel)
  have hfields : Function.Injective fun l : Link Script.wire =>
      (l.channel.number, l.channel.address, l.number, l.address) := by
    rintro ⟨⟨_, _⟩, _, _⟩ ⟨⟨_, _⟩, _, _⟩ hl
    simp only [Prod.mk.injEq] at hl
    obtain ⟨rfl, rfl, rfl, rfl⟩ := hl
    rfl
  have hstay (k : Nat) : (Session.after (Session.exec (Session.connect "a:1") subscriber).2
      (subscriberRun.take k)).link = (Session.exec (Session.connect "a:1") subscriber).2.link := by
    refine Option.map_injective hfields ?_
    match k with
    | 0 | 1 | 2 | 3 => decide +kernel
    | k + 4 =>
      rw [List.take_of_length_le (Nat.le_add_left 4 k)]
      decide +kernel
  have hplain : ∀ o ∈ subscriberRun, o.IsPlain := by decide
  obtain ⟨l, events, hl, hhistory, hconserved⟩ := publications_conserved h hplain hstay
  exact ⟨_, h, l, events, hl, hhistory, hconserved, by decide +kernel, by decide +kernel⟩

end Geocast
