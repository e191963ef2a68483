import Geocast.Proofs.Session.Exec
import Geocast.Session.Call

/-! # Receiving

`Reception` lists what can happen while a session receives, one payload after the other, and
`receiveUntil_reception` says that nothing else happens. What holds of a wait is shown by induction
on it. -/

namespace Geocast

namespace Inbox

variable {i i' : Inbox} {p : Payload} {expected : List PayloadKind}

/-- What is taken out is the oldest reply that is expected, or else the oldest publication. -/
theorem take?_cases (h : i.take? expected = some (p, i')) :
    (i.replies.find? (·.kind ∈ expected) = some p ∧
      i' = { i with replies := i.replies.eraseP (·.kind ∈ expected) }) ∨
    (i.replies.find? (·.kind ∈ expected) = none ∧ .publish ∈ expected ∧
      ∃ q ps, p = .publish q ∧ i.publications = q :: ps ∧ i' = { i with publications := ps }) := by
  unfold take? at h
  split at h
  · next hfound =>
    cases h
    exact .inl ⟨hfound, rfl⟩
  · next hnone =>
    split at h
    · next q ps hps =>
      split at h
      · next hpub =>
        cases h
        exact .inr ⟨hnone, hpub, q, ps, rfl, hps, rfl⟩
      · exact nomatch h
    · exact nomatch h

theorem take?_eq_none_iff : i.take? expected = none ↔
    (∀ p ∈ i.replies, p.kind ∉ expected) ∧ (.publish ∈ expected → i.publications = []) := by
  unfold take?
  cases hf : i.replies.find? (·.kind ∈ expected) with
  | some q =>
    have hq : q.kind ∈ expected := by simpa using List.find?_some hf
    exact ⟨nofun, fun h => absurd hq (h.1 q (List.mem_of_find?_eq_some hf))⟩
  | none =>
    have hreplies : ∀ p ∈ i.replies, p.kind ∉ expected := by simpa using hf
    rw [and_iff_right hreplies]
    cases i.publications with
    | nil => simp
    | cons q ps => by_cases hpub : .publish ∈ expected <;> simp [hpub]

end Inbox

namespace Session

variable {W : Wire} {α : Type}

/-- The session after a payload came in on the channel numbered `n`, with the wire in state `w`. -/
def got (s : Session W) (n : Nat) (p : Payload) (w : W.State) : Session W :=
  { s with wire := w, history := .received n p :: s.history }

/-- A wait on the channel of `l` from one session to another, and its result. -/
inductive Reception (judge : Payload → Verdict α) (deadline : Nat) (l : Link W) :
    Session W → Except SessionError (Option α) → Session W → Prop
  | spent {s} : deadline - W.now s.wire = 0 → Reception judge deadline l s (.ok none) s
  | failed {s e w} : deadline - W.now s.wire ≠ 0 →
    W.recv l.channel (deadline - W.now s.wire) s.wire = (.error e, w) →
    Reception judge deadline l s (.error e) { s with wire := w }
  | silent {s w} : deadline - W.now s.wire ≠ 0 →
    W.recv l.channel (deadline - W.now s.wire) s.wire = (.ok none, w) →
    Reception judge deadline l s (.ok none) { s with wire := w }
  | accepted {s p w a} : deadline - W.now s.wire ≠ 0 →
    W.recv l.channel (deadline - W.now s.wire) s.wire = (.ok (some p), w) → judge p = .accept a →
    Reception judge deadline l s (.ok (some a)) (s.got l.number p w)
  | parked {s p w r s'} : deadline - W.now s.wire ≠ 0 →
    W.recv l.channel (deadline - W.now s.wire) s.wire = (.ok (some p), w) → judge p = .park →
    Reception judge deadline l { s.got l.number p w with inbox := s.inbox.park p } r s' →
    Reception judge deadline l s r s'
  | dropped {s p w r s'} : deadline - W.now s.wire ≠ 0 →
    W.recv l.channel (deadline - W.now s.wire) s.wire = (.ok (some p), w) → judge p = .drop →
    Reception judge deadline l (s.got l.number p w) r s' → Reception judge deadline l s r s'

theorem receiveUntil_eq (judge : Payload → Verdict α) (deadline : Nat) (l : Link W)
    (s : Session W) : receiveUntil judge deadline l s =
      if deadline - W.now s.wire = 0 then (.ok none, s)
      else match W.recv l.channel (deadline - W.now s.wire) s.wire with
        | (.error e, w) => (.error e, { s with wire := w })
        | (.ok none, w) => (.ok none, { s with wire := w })
        | (.ok (some p), w) =>
          match judge p with
          | .accept a => (.ok (some a), s.got l.number p w)
          | .park => receiveUntil judge deadline l
              { s.got l.number p w with inbox := s.inbox.park p }
          | .drop => receiveUntil judge deadline l (s.got l.number p w) := by
  rw [receiveUntil]
  dsimp only
  split
  · rfl
  · split <;> next h => rw [h] <;> rfl

theorem receiveUntil_reception (judge : Payload → Verdict α) (deadline : Nat) (l : Link W)
    (s : Session W) : Reception judge deadline l s (receiveUntil judge deadline l s).1
      (receiveUntil judge deadline l s).2 := by
  induction s using receiveUntil.induct judge deadline l with
  | case1 s budget h =>
    rw [receiveUntil_eq, if_pos h]
    exact .spent h
  | case2 s budget h e w hr =>
    rw [receiveUntil_eq, if_neg h, hr]
    exact .failed h hr
  | case3 s budget h w hr =>
    rw [receiveUntil_eq, if_neg h, hr]
    exact .silent h hr
  | case4 s budget h p w hr a hj =>
    rw [receiveUntil_eq, if_neg h, hr]
    dsimp only
    rw [hj]
    exact .accepted h hr hj
  | case5 s budget h p w hr s' hj ih =>
    rw [receiveUntil_eq, if_neg h, hr]
    dsimp only
    rw [hj]
    exact .parked h hr hj ih
  | case6 s budget h p w hr s' hj ih =>
    rw [receiveUntil_eq, if_neg h, hr]
    dsimp only
    rw [hj]
    exact .dropped h hr hj ih

/-! ## What waiting leaves alone -/

/-- Two sessions that differ at most in the inbox, the history and the wire. -/
structure Steady (s s' : Session W) : Prop where
  id : s'.id = s.id
  link : s'.link = s.link
  address : s'.address = s.address
  location : s'.location = s.location
  subscriptions : s'.subscriptions = s.subscriptions
  visited : s'.visited = s.visited
  options : s'.options = s.options

theorem Steady.refl (s : Session W) : Steady s s := ⟨rfl, rfl, rfl, rfl, rfl, rfl, rfl⟩

theorem Steady.trans {s₁ s₂ s₃ : Session W} (H : Steady s₁ s₂) (H' : Steady s₂ s₃) :
    Steady s₁ s₃ where
  id := H'.id.trans H.id
  link := H'.link.trans H.link
  address := H'.address.trans H.address
  location := H'.location.trans H.location
  subscriptions := H'.subscriptions.trans H.subscriptions
  visited := H'.visited.trans H.visited
  options := H'.options.trans H.options

theorem Steady.isConnected {s s' : Session W} (H : Steady s s') (hs : s.isConnected) :
    s'.isConnected := by
  rw [Session.isConnected, H.link]
  exact hs

theorem steady_got (s : Session W) (n : Nat) (p : Payload) (w : W.State) (i : Inbox) :
    Steady s { s.got n p w with inbox := i } := ⟨rfl, rfl, rfl, rfl, rfl, rfl, rfl⟩

theorem Reception.steady {judge : Payload → Verdict α} {deadline : Nat} {l : Link W}
    {s s' : Session W} {r : Except SessionError (Option α)}
    (H : Reception judge deadline l s r s') : Steady s s' := by
  induction H with
  | parked _ _ _ _ ih => exact .trans (steady_got ..) ih
  | dropped _ _ _ _ ih => exact .trans (steady_got _ _ _ _ _) ih
  | _ => exact ⟨rfl, rfl, rfl, rfl, rfl, rfl, rfl⟩

/-! ## Sending and waiting as actions -/

section
variable {s : Session W} {judge : Payload → Verdict α} {budget : Nat}
  {Q : Option α → Session W → Prop} {E : SessionError → Session W → Prop}

theorem ends_send {p : Payload} {Q : Unit → Session W → Prop}
    (hclosed : s.link = none → E .channelClosed s)
    (hok : ∀ l w, s.link = some l → W.send l.channel p s.wire = (.ok (), w) →
      Q () { s with wire := w, history := .sent l.number l.address p :: s.history })
    (herror : ∀ l e w, s.link = some l → W.send l.channel p s.wire = (.error e, w) →
      E e { s with wire := w, history := .sent l.number l.address p :: s.history }) :
    Ends s (send p) Q E := by
  unfold send
  rw [ends_bind, ends_get]
  split
  · next hl => exact hclosed hl
  · next l hl =>
    rcases h : W.send l.channel p s.wire with ⟨e | _, w⟩
    · exact herror l e w hl h
    · exact hok l w hl h

/-- A wait on the open channel ends like some reception. -/
theorem ends_receive (hclosed : s.link = none → E .channelClosed s)
    (hok : ∀ l a s', s.link = some l →
      Reception judge (W.now s.wire + budget) l s (.ok a) s' → Q a s')
    (herror : ∀ l e s', s.link = some l →
      Reception judge (W.now s.wire + budget) l s (.error e) s' → E e s') :
    Ends s (receive judge budget) Q E := by
  simp only [receive, ends_bind, ends_get]
  cases hl : s.link with
  | none => exact hclosed hl
  | some l =>
    simp only [ends_bind, ends_set, ends_ofOutcome]
    have H := receiveUntil_reception judge (W.now s.wire + budget) l s
    cases hr : (receiveUntil judge (W.now s.wire + budget) l s).1 with
    | ok a => exact hok l a _ hl (hr ▸ H)
    | error e => exact herror l e _ hl (hr ▸ H)

/-- A wait for some kinds takes the oldest parked payload of these, and receives if there is
none. -/
theorem ends_next? {expected : List PayloadKind} {Q : Option Payload → Session W → Prop}
    (hparked : ∀ p i, s.inbox.take? expected = some (p, i) → Q (some p) { s with inbox := i })
    (hreceive : s.inbox.take? expected = none →
      Ends s (receive (expecting expected) budget) Q E) :
    Ends s (next? expected budget) Q E := by
  simp only [next?, ends_bind, ends_get]
  split
  · next p i h => exact hparked p i h
  · next h => exact hreceive h

end

/-- Searching the parked publications only leaves some of them out. -/
theorem mem_of_search {action : FunctionAction} {request : RequestId} {p : Publication}
    {ps : List Publication} : (p ∈ (search action request ps).1 → p ∈ ps) ∧
      ∀ m rest, (search action request ps).2 = some (m, rest) → p ∈ rest → p ∈ ps := by
  induction ps with
  | nil => simp [search]
  | cons q ps ih =>
    unfold search
    split
    · refine ⟨nofun, ?_⟩
      rintro m rest ⟨⟩ hp
      exact List.mem_cons_of_mem q hp
    · exact ⟨fun h => List.mem_cons_of_mem q (ih.1 h),
        fun m rest h hp => List.mem_cons_of_mem q (ih.2 m rest h hp)⟩
    · refine ⟨fun h => ?_, fun m rest h hp => List.mem_cons_of_mem q (ih.2 m rest h hp)⟩
      exact (List.mem_cons.1 h).elim (fun h => h ▸ List.mem_cons_self)
        fun h => List.mem_cons_of_mem q (ih.1 h)

/-- Listening leaves out some of the parked publications, and receives if the message that is waited
for is not among them. -/
theorem ends_listen {s : Session W} {action : FunctionAction} {id : RequestId} {budget : Nat}
    {Q : Option FunctionMessage → Session W → Prop} {E : SessionError → Session W → Prop}
    (hfound : ∀ ps m, (∀ p ∈ ps, p ∈ s.inbox.publications) →
      Q (some m) { s with inbox := { s.inbox with publications := ps } })
    (hreceive : ∀ ps, (∀ p ∈ ps, p ∈ s.inbox.publications) →
      Ends { s with inbox := { s.inbox with publications := ps } }
        (receive (listening action id) budget) Q E) :
    Ends s (listen action id budget) Q E := by
  unfold listen
  rw [ends_bind, ends_get]
  split
  · next kept m rest h =>
    refine hfound _ m fun p hp => (List.mem_append.1 hp).elim (fun hp => ?_) fun hp => ?_
    · exact mem_of_search.2 m rest (by rw [h]) hp
    · exact mem_of_search.1 (by rw [h]; exact hp)
  · next kept h =>
    rw [ends_bind, ends_set]
    exact hreceive kept fun p hp => mem_of_search.1 (by rw [h]; exact hp)

end Session

end Geocast
