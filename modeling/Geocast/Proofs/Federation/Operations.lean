import Geocast.Proofs.Federation.Agreement
import Geocast.Proofs.Session.Operations

/-! # What operations do to an agreement

Every operation of a client keeps its agreement with its broker, whether it succeeds or fails
(`operation_agreeing`). What a request was answered is noted on both sides. A client that moves
tracks nothing at first, and one that comes back from a failed handoff finds things as it left
them. -/

namespace Geocast

namespace Session

open Federation

variable {V : Surroundings} {o : SessionOptions}
  {s s' : Session Federation.wire} {l : Link Federation.wire}

/-! ## Moving -/

theorem Member.straying (H : Member V o s) (hfree : V.Free) :
    Straying V s { s with link := none, inbox := .empty } where
  charted := H.charted
  outsiders A y hA := by
    rcases hA with hA | ⟨hconnected, -, rfl⟩
    · exact H.outsiders A y hA
    · obtain ⟨l, hl⟩ := Option.isSome_iff_exists.1 hconnected
      exact (hfree _ _ (H.called l hl)).2
  unmoved _ _ _ := .refl ..
  owned := nofun
  numbered := nofun
  bounded := H.bounded
  placed := nofun
  called := nofun
  astray := .inl ⟨rfl, List.mem_cons_self⟩

/-- The channel that was left is another one than the one that was opened. -/
theorem Member.number_ne {l₀ : Link Federation.wire} (H : Member V o s) (H' : Straying V s s')
    (hl₀ : s.link = some l₀) (hl : s'.link = some l) : l₀.channel.number ≠ l.channel.number := by
  intro hsame
  obtain ⟨haddress, hid⟩ := H.placed l₀ hl₀
  obtain ⟨-, hown⟩ := H.owned l₀ hl₀
  obtain ⟨hnot', hown'⟩ := H'.owned l hl
  have hconnected : s.isConnected := Option.isSome_iff_exists.2 ⟨l₀, hl₀⟩
  have hstands : connection? s'.wire s.address s.id = some l₀.channel.number := by
    rw [(H'.unmoved _ _ (.inr ⟨hconnected, rfl, rfl⟩)).connection, ← haddress, ← hid]
    exact hown
  obtain ⟨ha, hc⟩ := H'.charted.once hown' (hsame ▸ hstands)
  exact hnot' (.inr ⟨hconnected, ha.symm, hc.symm⟩)

/-- A client that moved tracks nothing, and its new broker has it on record. -/
theorem Member.movedFrom (H : Member V o s) (hfree : V.Free) (H' : Straying V s s')
    (hl : s'.link = some l) (hlodged : s'.Lodged l .accepted) (hoptions : s'.options = s.options)
    (hopened : s.opened ≤ s'.opened) : Agreeing V o (s'.movedFrom s) := by
  have hconfined : Confined V s' := H.toConfined.of_around H'.toConfined
  have hmember : Member V o s' :=
    ⟨hconfined, H'.placed, H'.called, hoptions.trans H.options⟩
  obtain ⟨hclear, haway⟩ := hlodged
  unfold Session.movedFrom
  cases hl₀ : s.link with
  | none =>
    exact (hmember.noted _ ∅).agreeing hl
      ⟨⟨hclear.parked, hclear.underWay⟩, fun hsent => absurd hsent haway, fun _ => .empty _⟩
  | some l₀ =>
    have hid : Outsider V.areas l.channel.clientId :=
      (H'.placed l hl).2 ▸ (hfree _ _ (H'.called l hl)).2
    obtain ⟨hungUp, hclear', haway'⟩ := hconfined.hungUp_clear hl hid hclear haway l₀.address
      (H.owned l₀ hl₀).1 (H.number_ne H' hl₀ hl) (Nat.lt_of_lt_of_le (H.numbered l₀ hl₀) hopened)
    exact ((hmember.steady hungUp ⟨rfl, rfl, rfl, rfl, rfl, rfl, rfl⟩).noted _ ∅).agreeing hl
      ⟨⟨hclear'.parked, hclear'.underWay⟩, fun hsent => absurd hsent haway', fun _ => .empty _⟩

/-- A client that comes back finds things as it left them. -/
theorem Agreeing.restored (H : Agreeing V o s) (H' : Confined (V.around s) s')
    (hhop : Hopping s s') (hl' : s'.link = none) :
    Agreeing V o { s' with
      link := s.link, address := s.address, id := s.id, visited := s.visited,
      inbox := s.inbox } := by
  have hconfined : Confined V s' := H.toConfined.of_around H'
  obtain ⟨events, hhistory, hledger⟩ := hhop.events
  rw [hl'] at hledger
  have hback : RolledBack s { s' with
      link := s.link, address := s.address, id := s.id, visited := s.visited, inbox := s.inbox } :=
    ⟨⟨rfl, rfl, rfl, hhop.location, hhop.subscriptions, rfl, hhop.options⟩, rfl, events, hhistory,
      hledger⟩
  refine H.stands hback (fun l hl => ?_) hconfined.charted hconfined.unmoved hconfined.bounded
  exact H'.unmoved _ _ (.inr ⟨Option.isSome_iff_exists.2 ⟨l, hl⟩, rfl, rfl⟩)

/-- The client agrees with its broker, as long as it calls where it may. -/
def AgreeingWithin (V : Surroundings) (o : SessionOptions) (s : Session Federation.wire) : Prop :=
  Within V s → Agreeing V o s

theorem Agreeing.within (H : Agreeing V o s) : AgreeingWithin V o s := fun _ => H

theorem followRedirects_agreeing (hfree : V.Free) (target : BrokerInfo) (H : Agreeing V o s) :
    Ends s (followRedirects target) (fun _ => AgreeingWithin V o) fun _ => AgreeingWithin V o := by
  rw [ends_followRedirects]
  have hhop : Hopping s { s with link := none, inbox := .empty } :=
    ⟨⟨[], rfl, .empty _⟩, rfl, rfl, rfl⟩
  refine ((hopUntilAccepted_straying _ _ target (H.straying hfree) hfree).and
    (hopUntilAccepted_hopping _ _ target _ hhop)).mono (fun _ s' ⟨H', h'⟩ hw => ?_)
      fun _ s' ⟨H', h'⟩ hw => ?_
  · obtain ⟨H', l, hl, hlodged⟩ := H' (hw.of_suffix (silent_movedFrom s' s).history)
    obtain ⟨events, hhistory, -⟩ := h'.events
    refine H.movedFrom hfree H' hl hlodged h'.options ?_
    rw [opened_of_append hhistory]
    exact Nat.le_add_right ..
  · exact H.restored (H' (hw.of_suffix (history_closed s'))).closed h'.closed (closed_link s')

/-! ## Answers -/

/-- Without a wait for acknowledgements there is nothing to agree on. -/
theorem Member.of_zero (H : Member V o s) (h : o.ackTimeout = 0) : Agreeing V o s :=
  ⟨H, fun hack => absurd h hack⟩

theorem conclude_of_zero (hfree : V.Free) (h : o.ackTimeout = 0) (r : Request) (p : Payload)
    (H : Agreeing V o s) :
    Ends s (r.conclude p) (fun _ => AgreeingWithin V o) fun _ => AgreeingWithin V o := by
  have hnoted (location : Option Location) (subscriptions : Table Topic Geofence) :
      Agreeing V o { s with location := location, subscriptions := subscriptions } :=
    (H.noted location subscriptions).of_zero h
  unfold Request.conclude
  split
  case h_6 =>
    simp only [moveTo, ends_bind, ends_modify]
    exact followRedirects_agreeing hfree _ (hnoted _ s.subscriptions)
  case h_7 =>
    simp only [moveTo, ends_bind, ends_modify, ends_closeChannel]
    exact (hnoted _ s.subscriptions).toMember.closed.within
  all_goals first
    | exact H.within
    | exact (hnoted _ _).within

/-- Whatever the answer says, client and broker agree once the client has noted it. -/
theorem conclude_of_told {r : Request} {p : Payload} (H : Member V o s') (hfree : V.Free)
    (hl : s'.link = some l) (h : Told s s' l r.payload p) (hs : Agreed s l) :
    Ends s' (r.conclude p) (fun _ => AgreeingWithin V o) fun _ => AgreeingWithin V o := by
  have hnoted (location : Option Location) {subscriptions : Table Topic Geofence}
      (hbacks : (∀ target, p ≠ .disconnect .wrongBroker target) → Backs s.record s.subscriptions →
        Backs s'.record subscriptions) :
      Agreeing V o { s' with location := location, subscriptions := subscriptions } :=
    (H.noted location subscriptions).agreeing hl
      (h.agreed hs r.payload_kind_ne_connect location hbacks)
  have hunchanged (location : Option Location)
      (hbacks : (∀ target, p ≠ .disconnect .wrongBroker target) → s'.record = s.record) :
      Agreeing V o { s' with location := location } :=
    hnoted location fun hp hb => by
      rw [hbacks hp, h.subscriptions]
      exact hb
  cases r with
  | subscribe t g =>
    rcases h.answered.of_subscribe with ⟨rfl, hbacks⟩ | ⟨rfl, hrecord⟩
    · exact (hnoted _ fun _ hb => h.subscriptions ▸ hbacks _ hb).within
    · exact (hunchanged _ fun _ => hrecord).within
  | unsubscribe t =>
    obtain ⟨rfl | rfl, hbacks⟩ := h.answered.of_unsubscribe
    all_goals exact (hnoted _ fun _ hb => h.subscriptions ▸ hbacks _ hb).within
  | updateLocation location =>
    rcases h.answered.of_pingReq with rfl | ⟨rfl, hrecord⟩ | ⟨target, rfl⟩
    · exact (hnoted _ fun _ _ => .empty _).within
    · exact (hunchanged _ fun _ => hrecord).within
    · have hmoved := hunchanged (some location) fun hp => absurd rfl (hp target)
      cases target with
      | some target =>
        simp only [Request.conclude, moveTo, ends_bind, ends_modify]
        exact followRedirects_agreeing hfree target hmoved
      | none =>
        simp only [Request.conclude, moveTo, ends_bind, ends_modify, ends_closeChannel]
        exact hmoved.toMember.closed.within
  | publish t g content =>
    rcases h.answered.of_publish with ⟨reason, rfl, hrecord⟩ | ⟨target, rfl⟩
    · exact (hunchanged _ fun _ => hrecord).within
    · exact (hunchanged _ fun hp => absurd rfl (hp target)).within

theorem perform_agreeing (hfree : V.Free) (r : Request) (H : Agreeing V o s) :
    Ends s r.perform (fun _ => AgreeingWithin V o) fun _ => AgreeingWithin V o := by
  by_cases hr : r.Tracked s
  · exact ends_perform_of_tracked hr fun _ => H.within
  refine ends_perform hr ?_
  by_cases hack : o.ackTimeout = 0
  · refine (ask_confined H.toConfined r).mono (fun p s' ⟨H', h'⟩ => ?_) fun e s' ⟨H', h'⟩ => ?_
    · exact conclude_of_zero hfree hack r p ((H.toMember.steady H' h').of_zero hack)
    · exact ((H.toMember.steady H' h').of_zero hack).within
  cases hl : s.link with
  | none => exact (ask_closed hl r).mono (fun _ _ h => h.elim) fun _ _ h => h ▸ H.within
  | some l =>
    have hagreed := H.agreed hack l hl
    refine (ask_told H.toMember hfree hack hl hagreed.toClear r).mono (fun p s' ⟨H', h'⟩ => ?_)
      fun _ _ h => h.elim
    exact conclude_of_told (H.toMember.steady H' h'.toSteady) hfree (h'.link.trans hl) h' hagreed

/-! ## Registering and leaving -/

theorem Member.closing (H : Member V o s) (address : String) (visited : List String)
    (subscriptions : Table Topic Geofence) : Agreeing V o { s.closed with
      address := address, visited := visited, subscriptions := subscriptions } := by
  have hclosed : Member V o s.closed := H.closed.toMember
  have hlink (l : Link Federation.wire) : s.closed.link ≠ some l := fun hl =>
    nomatch (closed_link s).symm.trans hl
  exact Member.of_closed ⟨⟨hclosed.charted, hclosed.outsiders, hclosed.unmoved, hclosed.owned,
    hclosed.numbered, hclosed.bounded⟩, fun l hl => absurd hl (hlink l),
    fun l hl => absurd hl (hlink l), hclosed.options⟩ (closed_link s)

theorem Member.lodged (H : Member V o s) (hl : s.link = some l) {a : Registration}
    (h : s.Lodged l a) (hsubscriptions : s.subscriptions = ∅) : Agreeing V o s := by
  have hbacked : Backs s.record s.subscriptions := hsubscriptions ▸ .empty _
  cases a with
  | accepted => exact H.agreeing hl ⟨h.1, fun hsent => absurd hsent h.2, fun _ => hbacked⟩
  | redirected target => exact H.agreeing hl ⟨h.1, fun _ => h.2, fun _ => hbacked⟩

theorem Member.dialed (H : Member V o s) {n : Node} {address : String}
    (hn : (Federation.nodes s.wire).get? address = some n) (hfree : V.Free)
    (hcalled : V.own address s.id) (haddress : s.address = address) (hinbox : s.inbox = .empty) :
    let l : Link Federation.wire := ⟨⟨Federation.opened s.wire, address, s.id⟩, s.opened, address⟩
    let s' : Session Federation.wire := { s with
      wire := Federation.registered s.wire address s.id
      history := .opened s.opened address s.id :: s.history
      link := some l }
    Member V o s' ∧ s'.Clear l ∧ ¬ s'.SentAway l.number := by
  intro l s'
  obtain ⟨hdialed, hclear, haway⟩ := H.toConfined.fresh hn (hfree _ _ hcalled).1 hinbox
  have hplaced : s'.Placed := fun l' hl' => by
    obtain rfl : l = l' := Option.some.inj hl'
    exact ⟨haddress.symm, rfl⟩
  exact ⟨⟨hdialed, hplaced, fun _ _ => haddress ▸ hcalled, H.options⟩, hclear, haway⟩

/-- A client that registers on a new channel agrees with its broker once it is answered. -/
theorem Member.registering (H : Member V o s) {n : Node} {address : String}
    (hn : (Federation.nodes s.wire).get? address = some n) (hfree : V.Free)
    (haddress : s.address = address) (hinbox : s.inbox = .empty) (hempty : s.subscriptions = ∅) :
    let l : Link Federation.wire := ⟨⟨Federation.opened s.wire, address, s.id⟩, s.opened, address⟩
    let s' : Session Federation.wire := { s with
      wire := Federation.registered s.wire address s.id
      history := .opened s.opened address s.id :: s.history
      link := some l }
    Ends s' register (fun _ => AgreeingWithin V o) fun _ s'' => Within V s'' → Member V o s'' := by
  intro l s'
  refine ends_within (Q := fun _ => Agreeing V o) register_grows fun hw => ?_
  have hcalled : V.own address s.id := hw _ List.mem_cons_self
  obtain ⟨hmember, hclear, haway⟩ := H.dialed hn hfree hcalled haddress hinbox
  refine (registerRetrying_lodged 1 hmember.toConfined hmember.placed rfl hclear haway
    (hfree _ _ hcalled).2).mono ?_ ?_
  · rintro a s'' ⟨H'', h'', hlodged⟩ -
    exact (hmember.steady H'' h'').lodged h''.link hlodged (h''.subscriptions.trans hempty)
  · rintro e s'' ⟨H'', h''⟩ -
    exact hmember.steady H'' h''

theorem connect_agreeing (hfree : V.Free) (address : String) (H : Agreeing V o s) :
    Ends s (connect address) (fun _ => AgreeingWithin V o) fun _ => AgreeingWithin V o := by
  simp only [connect, ends_bind, ends_closeChannel, ends_modify, ends_tryCatch, ends_throw]
  have hclosing := (H.toMember.closing address [] ∅).toMember
  refine ends_dial (fun c w h => ?_) fun e w h => ?_
  · obtain ⟨n, hn, rfl, rfl⟩ := eq_of_dial_ok h
    have hclosed {s₁ : Session Federation.wire} (h : Within V s₁ → Member V o s₁) :
        AgreeingWithin V o s₁.closed := fun hw => (h (hw.of_suffix (history_closed s₁))).closed
    refine (hclosing.registering hn hfree rfl (closed_inbox s) rfl).mono (fun a s₁ h => ?_)
      fun e s₁ h => hclosed h
    cases a with
    | accepted => exact h
    | redirected target =>
      have hgrows : Grows (followRedirects (W := Federation.wire) target) :=
        grows_of_keeps fun events => (chronicle_grown events).followRedirects target
      exact (ends_within hgrows fun hw => followRedirects_agreeing hfree target (h hw)).mono
        (fun _ _ h => h) fun _ s₂ h => hclosed fun hw => (h hw).toMember
  · cases eq_of_dial_error h
    refine fun _ => Member.of_closed ?_ (closed_link s)
    exact ⟨hclosing.refused address s.closed.id, hclosing.placed, hclosing.called, hclosing.options⟩

theorem disconnect_agreeing :
    Keeps (Agreeing V o) (fun _ => Agreeing V o) disconnect := fun _ H =>
  ends_disconnect (Q := Member V o) H.toMember
    ((send_confined H.toConfined _).mono (fun _ _ h => H.toMember.steady h.1 h.2)
      fun _ _ h => H.toMember.steady h.1 h.2)
    fun s' H' => H'.closing s'.closed.address [] ∅

/-! ## Waiting for publications -/

theorem receive_agreeing {α : Type} (judge : Payload → Verdict α) (budget : Nat) :
    Keeps (Agreeing V o) (fun _ => Agreeing V o) (receive judge budget) := by
  intro s H
  have hreceived {l : Link Federation.wire} {r : Except SessionError (Option α)}
      {s' : Session Federation.wire} (hl : s.link = some l)
      (h : Reception judge (Federation.clock s.wire + budget) l s r s') : Agreeing V o s' := by
    refine ⟨H.toMember.steady (H.toConfined.traffic hl h.traffic h.drained) h.steady,
      fun hack l' hl' => ?_⟩
    obtain rfl := Option.some.inj (hl.symm.trans (h.steady.link.symm.trans hl'))
    have hagreed := H.agreed hack l hl
    obtain ⟨hclear, hheard⟩ := h.idle hagreed.toClear
    exact hagreed.of_record hclear (hheard.sentAway (fun _ => nofun) _)
      (record_of_drained h.drained h.steady) h.steady.subscriptions
  exact ends_receive (fun _ => H) (fun l a s' hl h => hreceived hl h)
    fun l e s' hl h => hreceived hl h

theorem Agreeing.parked (H : Agreeing V o s) {i : Inbox}
    (hi : s.inbox.replies = [] → i.replies = []) : Agreeing V o { s with inbox := i } := by
  refine ⟨⟨H.toConfined.inbox i, H.placed, H.called, H.options⟩, fun hack l hl => ?_⟩
  have hagreed := H.agreed hack l hl
  exact hagreed.of_record ⟨hi hagreed.parked, hagreed.underWay⟩ .rfl rfl rfl

theorem nextPublication_agreeing (budget : Nat) :
    Keeps (Agreeing V o) (fun _ => Agreeing V o) (nextPublication budget) :=
  nextPublication_keeps (fun budget s H =>
    ends_next? (fun _ _ h => H.parked (Inbox.replies_take? h)) fun _ =>
      receive_agreeing _ budget s H)
    (fun _ H _ => H) budget

theorem listen_agreeing (action : FunctionAction) (id : RequestId) (budget : Nat) :
    Keeps (Agreeing V o) (fun _ => Agreeing V o) (listen action id budget) := fun _ H =>
  ends_listen (fun _ _ _ => H.parked fun hi => hi)
    fun _ _ => receive_agreeing _ budget _ (H.parked fun hi => hi)

/-- Every operation keeps the agreement of a client with its broker, whether it succeeds or fails,
as long as the client calls where it may. -/
theorem operation_agreeing (hfree : V.Free) (op : Operation) :
    Keeps (AgreeingWithin V o) (fun _ => AgreeingWithin V o) op.perform := by
  have hgrown (events : List WireEvent) :=
    chronicle_keeps (W := Federation.wire) (chronicle_grown events)
  refine OperationKeeps.operation {
    connect := fun address => keeps_within (grows_of_keeps fun events => ?_) fun _ =>
      connect_agreeing hfree address
    disconnect := keeps_within (grows_of_keeps fun events => ?_) fun s H =>
      (disconnect_agreeing s H).mono (fun _ _ h => h.within) fun _ _ h => h.within
    perform := fun r => keeps_within (grows_of_keeps fun events => ?_) fun _ =>
      perform_agreeing hfree r
    nextPublication := fun budget => keeps_within (grows_of_keeps fun events => ?_) fun s H =>
      (nextPublication_agreeing budget s H).mono (fun _ _ h => h.within) fun _ _ h => h.within
    listen := fun action id budget => keeps_within (grows_of_keeps fun events => ?_) fun s H =>
      (listen_agreeing action id budget s H).mono (fun _ _ h => h.within) fun _ _ h => h.within
    followRedirects := fun target => keeps_within (grows_of_keeps fun events => ?_) fun _ =>
      followRedirects_agreeing hfree target
    astray := fun _ H => ⟨H, fun _ => H⟩ } op
  · exact (hgrown events).connect address
  · exact (hgrown events).disconnect
  · exact (hgrown events).operations.perform r
  · exact (hgrown events).operations.nextPublication budget
  · exact (hgrown events).listen action id budget
  · exact (hgrown events).followRedirects target

end Session

end Geocast
