import Geocast.Proofs.Federation.Confined
import Geocast.Proofs.Session.Chronicle

/-! # Moving between brokers

A session that follows redirects calls one broker after the other, under its own id or under one
made from it. It never comes back to where it started under the id that it had there: a broker that
was visited before is called under a new id. So while the session is `Straying`, the registration
that it left behind stands as it did (`hopUntilAccepted_straying`), ready to be taken up again. -/

namespace Geocast

namespace Session

open Federation

variable {V : Surroundings} {o s s' : Session Federation.wire} {l : Link Federation.wire}
  {target : BrokerInfo} {address : String}

/-! ## Registering -/

/-- How a session stands on a channel on which it was answered a registration. -/
def Lodged (s : Session Federation.wire) (l : Link Federation.wire) : Registration → Prop
  | .accepted => s.Clear l ∧ ¬ s.SentAway l.number
  | .redirected _ => s.Clear l ∧ s.record = none

theorem askToRegister_told (H : Confined V s) (hplaced : s.Placed) (hl : s.link = some l)
    (hclear : s.Clear l) (hid : Outsider V.areas s.id) : Ends s askToRegister
      (fun r s' => Confined V s' ∧ Told s s' l (.connect s.location) r)
      fun _ s' => Confined V s' ∧ Steady s s' := by
  simp only [askToRegister, ends_bind, ends_get]
  refine (send_asked H hplaced hl hclear hid (p := .connect s.location) trivial).mono ?_
    fun _ _ h => h.elim
  rintro _ s₁ ⟨H₁, r, h₁⟩
  have hexpected : r.kind ∈ [PayloadKind.connAck, .disconnect] := by
    rcases h₁.answered.of_connect with rfl | rfl | ⟨_, rfl, -⟩ <;> simp [Payload.kind]
  refine (await_told H₁ h₁ (h₁.link.trans hl) hexpected (by decide)).mono ?_ fun _ _ h => h.2
  rintro _ s₂ ⟨rfl, h₂⟩
  exact h₂

theorem Told.lodged {r : Payload} {location : Option Location} {a : Registration}
    (h : Told s s' l (.connect location) r) (haway : ¬ s.SentAway l.number)
    (hr : registration r = .ok a) : s'.Lodged l a := by
  rcases h.answered.of_connect with rfl | rfl | ⟨target, rfl, hnew⟩
  · cases hr
    refine ⟨h.toClear, fun hsent => ?_⟩
    rcases (h.sentAway _).1 hsent with hsent | ⟨-, _, hr⟩
    · exact haway hsent
    · exact nomatch hr
  · exact nomatch hr
  · cases target with
    | none => exact nomatch hr
    | some target =>
      cases hr
      exact ⟨h.toClear, hnew⟩

theorem ofOutcome_lodged {r : Payload} (H : Confined V s')
    (h : Told s s' l (.connect s.location) r) (haway : ¬ s.SentAway l.number) :
    Ends s' (ofOutcome (registration r)) (fun a s' => Confined V s' ∧ Steady s s' ∧ s'.Lodged l a)
      fun _ s' => Confined V s' ∧ Steady s s' := by
  rw [ends_ofOutcome]
  cases hr : registration r with
  | ok a => exact ⟨H, h.toSteady, h.lodged haway hr⟩
  | error e => exact ⟨H, h.toSteady⟩

/-- A registration that is answered leaves the session lodged on its channel. -/
theorem registerRetrying_lodged (retries : Nat) (H : Confined V s) (hplaced : s.Placed)
    (hl : s.link = some l) (hclear : s.Clear l) (haway : ¬ s.SentAway l.number)
    (hid : Outsider V.areas s.id) : Ends s (registerRetrying retries)
      (fun a s' => Confined V s' ∧ Steady s s' ∧ s'.Lodged l a)
      fun _ s' => Confined V s' ∧ Steady s s' := by
  induction retries generalizing s with
  | zero =>
    simp only [registerRetrying, ends_bind]
    refine (askToRegister_told H hplaced hl hclear hid).mono ?_ fun _ _ h => h
    rintro r s₁ ⟨H₁, h₁⟩
    exact ofOutcome_lodged H₁ h₁ haway
  | succ retries ih =>
    simp only [registerRetrying, ends_bind]
    refine (askToRegister_told H hplaced hl hclear hid).mono ?_ fun _ _ h => h
    rintro r s₁ ⟨H₁, h₁⟩
    split
    · have haway₁ : ¬ s₁.SentAway l.number := by
        intro hsent
        rcases (h₁.sentAway _).1 hsent with hsent | ⟨-, _, hr⟩
        · exact haway hsent
        · cases hr
      refine (ih H₁ (h₁.toSteady.placed hplaced) (h₁.link.trans hl) h₁.toClear haway₁
        (h₁.id ▸ hid)).mono ?_ ?_
      · rintro a s₂ ⟨H₂, h₂, hlodged⟩
        exact ⟨H₂, h₁.toSteady.trans h₂, hlodged⟩
      · rintro e s₂ ⟨H₂, h₂⟩
        exact ⟨H₂, h₁.toSteady.trans h₂⟩
    · exact ofOutcome_lodged H₁ h₁ haway

/-! ## One hop -/

theorem Confined.left (H : Confined V s) (target : BrokerInfo) : Confined V (s.left target) := by
  unfold Session.left
  split <;> exact ⟨H.charted, H.outsiders, H.unmoved, H.owned, H.numbered, H.bounded⟩

/-- Closing a channel brings no replies to another. -/
theorem repliesTo_close {areas : List BrokerArea} {f : Federation} (H : Charted areas f)
    {A y : String} {k : Nat} (hy : Outsider areas y) (hk : f.connection? A y = some k)
    {c : FederationChannel} (hne : c.number ≠ k) :
    repliesTo k (Federation.close c f).mail = repliesTo k f.mail := by
  by_cases hpair : c.address = A ∧ c.clientId = y
  · obtain ⟨rfl, rfl⟩ := hpair
    rcases close_cases c f with h | ⟨hc, -⟩
    · rw [h]
    · exact absurd (Option.some.inj (hc.symm.trans hk)) hne
  · exact (H.close_unmoved hy hpair).replies k hk

/-- A session that closes another channel of its own is as untroubled on the open one as before. -/
theorem Confined.hungUp_clear (H : Confined V s) (hl : s.link = some l)
    (hid : Outsider V.areas l.channel.clientId) (hclear : s.Clear l) (haway : ¬ s.SentAway l.number)
    {c : FederationChannel} {n : Nat} (a : String) (hc : ¬ V.others c.address c.clientId)
    (hne : c.number ≠ l.channel.number) (hn : n < s.opened) :
    let s' : Session Federation.wire := { s with
      wire := Federation.close c s.wire, history := .closed n a :: s.history }
    Confined V s' ∧ s'.Clear l ∧ ¬ s'.SentAway l.number := by
  intro s'
  have hother : ∀ l', s.link = some l' → c.number ≠ l'.channel.number := by
    intro l' hl'
    obtain rfl := Option.some.inj (hl.symm.trans hl')
    exact hne
  have hreplies := repliesTo_close H.charted hid (H.owned l hl).2 hne
  refine ⟨H.hungUp hc hother hn, ⟨hclear.parked, hreplies.trans hclear.underWay⟩, fun hsent => ?_⟩
  exact haway ((sentAway_cons (e := .closed n a) fun _ h => nomatch h).1 hsent)

/-- The session after it opened a channel under its id and closed the one before. -/
def hopped (s : Session Federation.wire) (address : String) : Session Federation.wire :=
  let s' : Session Federation.wire := { s with
    wire := Federation.registered s.wire address s.id
    history := .opened s.opened address s.id :: s.history }
  { s'.closed with
    link := some ⟨⟨Federation.opened s.wire, address, s.id⟩, s.opened, address⟩
    address := address }

@[simp] theorem hopped_id (s : Session Federation.wire) (address : String) :
    (s.hopped address).id = s.id := by
  unfold Session.hopped Session.closed
  cases s.link <;> rfl

@[simp] theorem hopped_visited (s : Session Federation.wire) (address : String) :
    (s.hopped address).visited = s.visited := by
  unfold Session.hopped Session.closed
  cases s.link <;> rfl

theorem Confined.addressed (H : Confined V s) (address : String) :
    Confined V { s with address := address } :=
  ⟨H.charted, H.outsiders, H.unmoved, H.owned, H.numbered, H.bounded⟩

/-- A new channel, on which nothing was said yet. -/
theorem Confined.fresh (H : Confined V s) {n : Node}
    (hn : (Federation.nodes s.wire).get? address = some n) {c : String} (hc : ¬ V.others address c)
    {i : Inbox} (hi : i = .empty) :
    let l : Link Federation.wire := ⟨⟨Federation.opened s.wire, address, c⟩, s.opened, address⟩
    let s' : Session Federation.wire := { s with
      wire := Federation.registered s.wire address c
      history := .opened s.opened address c :: s.history
      link := some l, inbox := i }
    Confined V s' ∧ s'.Clear l ∧ ¬ s'.SentAway l.number := by
  intro l s'
  have hparked : i.replies = [] := congrArg Inbox.replies hi
  refine ⟨H.dialed hn hc i, ⟨hparked, H.charted.repliesTo_new⟩, fun hsent => ?_⟩
  exact H.not_sentAway ((sentAway_cons fun _ h => WireEvent.noConfusion h).1 hsent)

theorem Confined.hopped (H : Confined V s) {n : Node}
    (hn : (Federation.nodes s.wire).get? address = some n) (hc : ¬ V.others address s.id)
    (hid : Outsider V.areas s.id) : Confined V (s.hopped address) ∧
      ∃ l, (s.hopped address).link = some l ∧ (s.hopped address).Clear l ∧
        ¬ (s.hopped address).SentAway l.number := by
  obtain ⟨hfresh, hclear, haway⟩ := H.fresh hn hc rfl
  have haddressed := hfresh.addressed address
  cases hl : s.link with
  | none =>
    have heq : s.hopped address = { s with
        wire := Federation.registered s.wire address s.id
        history := .opened s.opened address s.id :: s.history
        link := some ⟨⟨Federation.opened s.wire, address, s.id⟩, s.opened, address⟩
        inbox := .empty, address := address } := by
      simp only [Session.hopped, Session.closed, hl]
    rw [heq]
    exact ⟨haddressed, _, rfl, ⟨hclear.parked, hclear.underWay⟩, haway⟩
  | some l =>
    have heq : s.hopped address = { s with
        wire := Federation.close l.channel (Federation.registered s.wire address s.id)
        history := .closed l.number l.address :: .opened s.opened address s.id :: s.history
        link := some ⟨⟨Federation.opened s.wire, address, s.id⟩, s.opened, address⟩
        inbox := .empty, address := address } := by
      simp only [Session.hopped, Session.closed, hl]
      rfl
    obtain ⟨hnot, hown⟩ := H.owned l hl
    have hne : l.channel.number ≠ Federation.opened s.wire := Nat.ne_of_lt (H.charted.numbered hown)
    obtain ⟨hungUp, hclear', haway'⟩ := haddressed.hungUp_clear rfl hid
      ⟨hclear.parked, hclear.underWay⟩ haway l.address hnot hne
      (Nat.lt_succ_of_lt (H.numbered l hl))
    rw [heq]
    exact ⟨hungUp, _, rfl, hclear', haway'⟩

/-! ## A chain of hops -/

/-- What the session called so far is its own to call. -/
def Within (V : Surroundings) (s : Session Federation.wire) : Prop :=
  ∀ c ∈ dials s.history, V.own c.1 c.2

theorem Within.of_suffix (H : Within V s') (h : s.history <:+ s'.history) : Within V s :=
  fun c hc => H c ((h.filterMap WireEvent.dialed?).subset hc)

/-- Of an action that only adds to the history, only the ends count where the session is within its
own: it was so from the beginning. -/
theorem ends_within {α : Type} {x : Action Federation.wire α}
    {Q : α → Session Federation.wire → Prop} {E : SessionError → Session Federation.wire → Prop}
    (hx : Grows x)
    (H : Within V s →
      Ends s x (fun a s' => Within V s' → Q a s') fun e s' => Within V s' → E e s') :
    Ends s x (fun a s' => Within V s' → Q a s') fun e s' => Within V s' → E e s' := by
  by_cases hs : Within V s
  · exact H hs
  · exact (hx s).mono (fun _ _ h hw => absurd (hw.of_suffix h) hs)
      fun _ _ h hw => absurd (hw.of_suffix h) hs

/-- What an action keeps within its own, it keeps as long as the session is within its own. -/
theorem keeps_within {α : Type} {x : Action Federation.wire α}
    {P : Session Federation.wire → Prop} (hx : Grows x)
    (H : ∀ s, P s → Ends s x (fun _ s' => Within V s' → P s') fun _ s' => Within V s' → P s') :
    Keeps (fun s => Within V s → P s) (fun _ s => Within V s → P s) x := fun s hs =>
  ends_within hx fun hw => H s (hs hw)

end Session

/-- The surroundings to which the registration of the session `o` belongs as well, if it has one. -/
def Surroundings.around (V : Surroundings) (o : Session Federation.wire) : Surroundings :=
  { V with
    others := fun A y => V.others A y ∨ o.isConnected ∧ A = o.address ∧ y = o.id
    before := o.wire }

namespace Session

open Federation

variable {V : Surroundings} {o s s' : Session Federation.wire} {l : Link Federation.wire}
  {target : BrokerInfo}

/-- What was left behind still stands. -/
theorem Confined.of_around (H : Confined V s) (H' : Confined (V.around s) s') :
    Confined V s' where
  charted := H'.charted
  outsiders := H.outsiders
  unmoved A y hA := (H.unmoved A y hA).trans (H'.unmoved A y (.inl hA))
  owned l hl := by
    obtain ⟨hnot, hown⟩ := H'.owned l hl
    exact ⟨fun hA => hnot (.inl hA), hown⟩
  numbered := H'.numbered
  bounded := H'.bounded

/-- The session `s` left the session `o`, and the registration that `o` had stands as it did. As
long as it keeps the id it has the address of `o` among those visited. -/
structure Straying (V : Surroundings) (o s : Session Federation.wire) : Prop
    extends Confined (V.around o) s where
  placed : s.Placed
  called : ∀ l, s.link = some l → V.own s.address s.id
  astray : s.id = o.id ∧ o.address ∈ s.address :: s.visited ∨ o.id.length < s.id.length

/-- The next broker is not called where the registration of `o` stands. -/
theorem Straying.left (H : Straying V o s) (target : BrokerInfo) :
    ¬ (target.address = o.address ∧ (s.left target).id = o.id) ∧
      ((s.left target).id = o.id ∧ o.address ∈ target.address :: (s.left target).visited ∨
        o.id.length < (s.left target).id.length) := by
  unfold Session.left
  by_cases hvisited : target.address ∈ s.address :: s.visited
  · rw [if_pos hvisited]
    have hlonger := length_minted (Federation.wire.calendar s.wire) s.id
    have hlength :
        o.id.length < (s.id ++ "-" ++ toString (Federation.wire.calendar s.wire)).length := by
      rcases H.astray with ⟨hid, -⟩ | hlength
      · exact hid ▸ hlonger
      · exact Nat.lt_trans hlength hlonger
    exact ⟨fun h => Nat.lt_irrefl _ (h.2 ▸ hlength), .inr hlength⟩
  · rw [if_neg hvisited]
    refine ⟨?_, H.astray.imp_left fun h => ⟨h.1, List.mem_cons_of_mem _ h.2⟩⟩
    rintro ⟨haddress, hid⟩
    rcases H.astray with ⟨-, hmem⟩ | hlength
    · exact hvisited (haddress ▸ hmem)
    · exact Nat.lt_irrefl _ (hid ▸ hlength)

theorem mem_dials_hopped (s : Session Federation.wire) (address : String) :
    (address, s.id) ∈ dials (s.hopped address).history := by
  unfold Session.hopped Session.closed
  cases s.link <;> exact List.mem_cons_self

/-- One hop leaves the session lodged with the target, or where it cannot do harm, as long as it
calls where it may. -/
theorem handoff_straying (H : Straying V o s) (hfree : V.Free) (target : BrokerInfo) :
    Ends s (handoff target)
      (fun a s' => Within V s' → Straying V o s' ∧ ∃ l, s'.link = some l ∧ s'.Lodged l a)
      fun _ s' => Within V s' → Confined (V.around o) s' := by
  simp only [handoff, ends_bind, ends_leave, ends_inHandoff, ends_closeChannel, ends_modify]
  obtain ⟨hothers, hastray⟩ := H.left target
  have hleft : Confined (V.around o) (s.left target) := H.toConfined.left target
  refine ends_dial (fun c w h => ?_) fun e w h => ?_
  · obtain ⟨n, hn, rfl, rfl⟩ := eq_of_dial_ok h
    refine ends_within (s := (s.left target).hopped target.address) register_grows fun hw => ?_
    have hcalled := hw _ (mem_dials_hopped (s.left target) target.address)
    obtain ⟨hnot, hid⟩ := hfree _ _ hcalled
    have hnot : ¬ (V.around o).others target.address (s.left target).id :=
      fun h => h.elim hnot fun h => hothers h.2
    obtain ⟨hhopped, l, hl, hclear, haway⟩ := hleft.hopped hn hnot hid
    have hplaced : ((s.left target).hopped target.address).Placed := fun l' hl' => by
      cases hl'
      exact ⟨rfl, (hopped_id ..).symm⟩
    refine (registerRetrying_lodged 1 hhopped hplaced hl hclear haway ?_).mono ?_
      fun _ _ h _ => h.1
    · rw [hopped_id]
      exact hid
    · rintro a s' ⟨H', h', hlodged⟩ -
      have hid : s'.id = (s.left target).id := h'.id.trans (hopped_id ..)
      have hvisited : s'.visited = (s.left target).visited := h'.visited.trans (hopped_visited ..)
      have haddress : s'.address = target.address := h'.address
      refine ⟨⟨H', h'.placed hplaced, fun _ _ => ?_, ?_⟩, l, h'.link.trans hl, hlodged⟩
      · rw [hid, haddress]
        exact hcalled
      · rw [hid, haddress, hvisited]
        exact hastray
  · cases eq_of_dial_error h
    exact fun _ => hleft.refused target.address (s.left target).id

/-- A chain of hops that succeeds leaves the session lodged with the broker that accepted it, and
one that fails leaves it where it cannot do harm. -/
theorem hopUntilAccepted_straying (limit hops : Nat) (target : BrokerInfo) (H : Straying V o s)
    (hfree : V.Free) : Ends s (hopUntilAccepted limit hops target)
      (fun _ s' => Within V s' → Straying V o s' ∧ ∃ l, s'.link = some l ∧ s'.Lodged l .accepted)
      fun _ s' => Within V s' → Confined (V.around o) s' := by
  induction hops generalizing target s with
  | zero => exact fun _ => H.toConfined
  | succ hops ih =>
    simp only [hopUntilAccepted, ends_bind]
    refine (handoff_straying H hfree target).mono (fun a s' h => ?_) fun _ _ h => h
    cases a with
    | accepted => exact h
    | redirected next =>
      refine ends_within (grows_of_keeps fun events => ?_) fun hw => ih next (h hw).1
      exact (chronicle_grown events).hopUntilAccepted limit hops next

end Session

end Geocast
