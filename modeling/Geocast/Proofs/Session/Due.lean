import Geocast.Proofs.Session.Receiving
import Geocast.Proofs.Session.Script

/-! # Replies that are due

Replies carry no mark of the request they belong to. On a scripted wire, `due` lists the replies to
earlier requests that nobody has read yet. Sending puts the replies to what is sent behind them
(`send_due`), and a wait reads the first of an expected kind, or leaves all of them (`ends_await`).
-/

namespace Geocast

namespace Session

open Script

variable {s s' s'' : Session Script.wire}

/-- The replies on their way to the open channel. -/
def underWay (s : Session Script.wire) : List Payload :=
  match s.link with
  | none => []
  | some l => (State.queue s.wire l.channel.number).filterMap Item.reply?

/-- The replies to earlier requests that nobody has read, in the order in which they will be
found: those that are parked and those on their way to the open channel. -/
def due (s : Session Script.wire) : List Payload := s.inbox.replies ++ s.underWay

/-- The replies to the payload that is sent next. -/
def ownReplies (s : Session Script.wire) : List Payload :=
  match s.link with
  | none => []
  | some l => (State.released s.wire l.channel.address).filterMap Item.reply?

theorem due_congr (hl : s'.link = s.link) (hi : s'.inbox = s.inbox) (hw : s'.wire = s.wire) :
    s'.due = s.due := by
  unfold due underWay
  rw [hl, hi, hw]

/-! ## Staying on the open channel -/

/-- The open channel, if there is one, was opened on the wire. -/
def Dialed (s : Session Script.wire) : Prop :=
  ∀ l, s.link = some l → l.channel.number < State.opened s.wire

/-- A session that used its wire on the open channel only, and is otherwise the same up to inbox
and history. -/
structure Stays (s s' : Session Script.wire) : Prop extends Steady s s' where
  opened : State.opened s'.wire = State.opened s.wire
  other : ∀ n, (∀ l, s.link = some l → l.channel.number ≠ n) →
    State.queue s'.wire n = State.queue s.wire n
  orderly : s.Dialed → State.Orderly s.wire → State.Orderly s'.wire

namespace Stays

theorem refl (s : Session Script.wire) : Stays s s := ⟨.refl s, rfl, fun _ _ => rfl, fun _ h => h⟩

theorem dialed (H : Stays s s') (h : s.Dialed) : s'.Dialed := fun l hl => by
  rw [H.opened]
  exact h l (H.link ▸ hl)

theorem trans (H : Stays s s') (H' : Stays s' s'') : Stays s s'' where
  toSteady := H.toSteady.trans H'.toSteady
  opened := H'.opened.trans H.opened
  other n hn := (H'.other n fun l hl => hn l (H.link ▸ hl)).trans (H.other n hn)
  orderly hd h := H'.orderly (H.dialed hd) (H.orderly hd h)

theorem taken {l : Link Script.wire} (hl : s.link = some l) {i : Item} {w : State}
    (h : Taken l.channel.number i s.wire w) (history : List WireEvent) (inbox : Inbox) :
    Stays s { s with wire := w, history := history, inbox := inbox } where
  toSteady := ⟨rfl, rfl, rfl, rfl, rfl, rfl, rfl⟩
  opened := h.opened
  other n hn := h.other n (hn l hl).symm
  orderly _ H := H.taken h

end Stays

/-! ## Receiving -/

section
variable {α : Type} {judge : Payload → Verdict α} {deadline : Nat} {l : Link Script.wire}
  {r : Except SessionError (Option α)}

theorem Reception.stays (H : Reception judge deadline l s r s') (hl : s.link = some l) :
    Stays s s' := by
  induction H with
  | spent => exact .refl _
  | failed _ hr => exact .taken hl (taken_of_recv_error hr) _ _
  | silent _ hr =>
    obtain ⟨t, rfl⟩ := clock_of_recv_none hr
    exact ⟨⟨rfl, rfl, rfl, rfl, rfl, rfl, rfl⟩, rfl, fun _ _ => rfl, fun _ H => H.clock t⟩
  | accepted _ hr => exact .taken hl (taken_of_recv hr) _ _
  | parked _ hr _ _ ih | dropped _ hr _ _ ih =>
    exact .trans (.taken hl (taken_of_recv hr) _ _) (ih hl)

/-- On an orderly wire no wait fails. -/
theorem Reception.sound (H : Reception judge deadline l s r s') (hl : s.link = some l)
    (ho : State.Orderly s.wire) : ∀ e, r ≠ .error e := by
  induction H with
  | spent | silent | accepted => exact nofun
  | failed _ hr =>
    have h := (taken_of_recv_error hr).own
    exact absurd (h ▸ List.mem_cons_self) (ho.sound _ _)
  | parked _ hr _ _ ih | dropped _ hr _ _ ih => exact ih hl (ho.taken (taken_of_recv hr))

theorem due_of_link (hl : s.link = some l) : s.due =
    s.inbox.replies ++ (State.queue s.wire l.channel.number).filterMap Item.reply? := by
  rw [due, underWay, hl]

theorem due_of_taken (hl : s.link = some l) {i : Item} {w : State}
    (h : Taken l.channel.number i s.wire w) : s.due = s.inbox.replies ++
      (i.reply?.toList ++ (State.queue w l.channel.number).filterMap Item.reply?) := by
  rw [due_of_link hl, h.own, List.filterMap_cons]
  cases i.reply? <;> rfl

theorem replies_park (i : Inbox) (p : Payload) :
    (i.park p).replies = i.replies ++ (Item.payload p).reply?.toList := by
  cases p <;> simp [Inbox.park, Item.reply?]

/-- Parking what came in leaves the replies that are due as they were. -/
theorem due_park (hl : s.link = some l) {p : Payload} {w : State}
    (h : Taken l.channel.number (.payload p) s.wire w) :
    due { s.got l.number p w with inbox := s.inbox.park p } = s.due := by
  rw [due_of_taken hl h, due_of_link (s := { s.got l.number p w with inbox := _ }) hl, replies_park,
    List.append_assoc]
  rfl

theorem due_silent (hl : s.link = some l) {w : State} {i : Item} (hi : i.reply? = none)
    (h : Taken l.channel.number i s.wire w) (history : List WireEvent) :
    due { s with wire := w, history := history } = s.due := by
  rw [due_of_taken hl h, due_of_link (s := { s with wire := w, history := _ }) hl, hi]
  rfl

/-- A wait that parks every reply leaves due what was due. -/
theorem Reception.due_eq (H : Reception judge deadline l s r s') (hl : s.link = some l)
    (hjudge : ∀ p, (Item.payload p).reply? ≠ none → judge p = .park) : s'.due = s.due := by
  have hreply {p : Payload} (h : judge p ≠ .park) : (Item.payload p).reply? = none :=
    Classical.byContradiction fun hp => h (hjudge p hp)
  induction H with
  | spent => rfl
  | failed _ hr => exact due_silent hl rfl (taken_of_recv_error hr) _
  | silent _ hr =>
    obtain ⟨t, rfl⟩ := clock_of_recv_none hr
    rfl
  | accepted _ hr hj => exact due_silent hl (hreply (by simp [hj])) (taken_of_recv hr) _
  | parked _ hr _ _ ih => exact (ih hl).trans (due_park hl (taken_of_recv hr))
  | dropped _ hr hj _ ih =>
    exact (ih hl).trans (due_silent hl (hreply (by simp [hj])) (taken_of_recv hr) _)

end

/-- From `s` to `s'` the first reply due of an expected kind was read, which is `p`. -/
structure Reads (expected : List PayloadKind) (p : Payload) (s s' : Session Script.wire) :
    Prop where
  first : s.due.find? (·.kind ∈ expected) = some p
  rest : s'.due = s.due.eraseP (·.kind ∈ expected)

section
variable {expected : List PayloadKind}

theorem reply?_of_kind (hpub : .publish ∉ expected) {p : Payload} (hp : p.kind ∈ expected) :
    (Item.payload p).reply? = some p := by
  cases p with
  | publish => exact absurd hp hpub
  | _ => rfl

theorem Reception.reads {deadline : Nat} {l : Link Script.wire}
    {r : Except SessionError (Option Payload)} (hpub : .publish ∉ expected)
    (H : Reception (expecting expected) deadline l s r s') (hl : s.link = some l)
    (hparked : ∀ q ∈ s.inbox.replies, q.kind ∉ expected) :
    (∀ p, r = .ok (some p) → Reads expected p s s') ∧
      ((∀ p, r ≠ .ok (some p)) → s'.due = s.due) := by
  induction H with
  | spent => exact ⟨nofun, fun _ => rfl⟩
  | failed _ hr => exact ⟨nofun, fun _ => due_silent hl rfl (taken_of_recv_error hr) _⟩
  | silent _ hr =>
    obtain ⟨t, rfl⟩ := clock_of_recv_none hr
    exact ⟨nofun, fun _ => rfl⟩
  | @accepted s p w a _ hr hj =>
    refine ⟨?_, fun h => absurd rfl (h a)⟩
    rintro p' ⟨⟩
    unfold expecting at hj
    split at hj
    · next hp =>
      cases hj
      have hnone : s.inbox.replies.find? (·.kind ∈ expected) = none := by simpa using hparked
      have hd := due_of_taken hl (taken_of_recv hr)
      rw [reply?_of_kind hpub hp] at hd
      constructor
      · rw [hd, List.find?_append, hnone]
        simp [hp]
      · rw [hd, List.eraseP_append_right _ (by simpa using hparked),
          due_of_link (s := s.got _ _ _) hl]
        simp [hp, got]
    · exact nomatch hj
  | @parked s p w r s' _ hr hj _ ih =>
    have hp : p.kind ∉ expected := by
      unfold expecting at hj
      split at hj
      · exact nomatch hj
      · assumption
    have hd := due_park hl (taken_of_recv hr)
    obtain ⟨hok, hnone⟩ := ih hl fun q hq => by
      rw [replies_park, List.mem_append, Option.mem_toList] at hq
      rcases hq with hq | hq
      · exact hparked q hq
      · cases p <;> cases hq <;> exact hp
    refine ⟨fun p' h => ?_, fun h => (hnone h).trans hd⟩
    obtain ⟨hfirst, hrest⟩ := hok p' h
    exact ⟨hd ▸ hfirst, hd ▸ hrest⟩
  | dropped _ _ hj =>
    unfold expecting at hj
    split at hj <;> exact nomatch hj

end

/-! ## Sending and waiting -/

theorem Stays.added {l : Link Script.wire} (hl : s.link = some l) {w : State}
    (h : Added l.channel.number (State.released s.wire l.channel.address) s.wire w)
    (history : List WireEvent) : Stays s { s with wire := w, history := history } where
  toSteady := ⟨rfl, rfl, rfl, rfl, rfl, rfl, rfl⟩
  opened := h.opened
  other n hn := h.other n (hn l hl).symm
  orderly hd H := H.added (hd l hl) h

theorem due_of_added {l : Link Script.wire} (hl : s.link = some l) {w : State}
    (h : Added l.channel.number (State.released s.wire l.channel.address) s.wire w)
    (history : List WireEvent) :
    due { s with wire := w, history := history } = s.due ++ s.ownReplies := by
  rw [due_of_link (s := { s with wire := w, history := _ }) hl, due_of_link hl, ownReplies, hl,
    h.own, List.filterMap_append, List.append_assoc]

/-- Sending makes due the replies to what is sent, behind all others. -/
theorem send_due (s : Session Script.wire) (p : Payload) : Ends s (send p)
    (fun _ s' => s.link.isSome ∧ Stays s s' ∧ s'.due = s.due ++ s.ownReplies)
    (fun e s' => (∀ awaited, e ≠ .timeout awaited) ∧ Stays s s' ∧ s'.due = s.due) := by
  refine ends_send (fun _ => ⟨nofun, .refl s, rfl⟩) (fun l w hl h => ?_) fun l e w hl h => ?_
  all_goals
    obtain ⟨w', H, h' | ⟨h', hnone⟩⟩ := send_cases l.channel p s.wire
    all_goals cases h'.symm.trans h
  · exact ⟨by simp [hl], .added hl H _, due_of_added hl H _⟩
  · refine ⟨nofun, .added hl H _, (due_of_added hl H _).trans ?_⟩
    simp [ownReplies, hl, hnone]

/-- A wait for replies reads the first that is due, or leaves due what was due. -/
theorem ends_await {expected : List PayloadKind} (hpub : .publish ∉ expected) (budget : Nat)
    (awaited : String) (s : Session Script.wire) : Ends s (await expected budget awaited)
      (fun p s' => Stays s s' ∧ Reads expected p s s')
      (fun e s' => Stays s s' ∧ s'.due = s.due ∧
        (s.link.isSome → State.Orderly s.wire → e = .timeout awaited)) := by
  simp only [await, ends_bind]
  refine ends_next? (fun p i h => ?_) fun h => ?_
  · rcases Inbox.take?_cases h with ⟨hfound, rfl⟩ | ⟨-, hexpected, -⟩
    · refine ⟨⟨⟨rfl, rfl, rfl, rfl, rfl, rfl, rfl⟩, rfl, fun _ _ => rfl, fun _ h => h⟩, ?_, ?_⟩
      · rw [due, List.find?_append, hfound]
        rfl
      · have hmem := List.mem_of_find?_eq_some hfound
        rw [due, due, List.eraseP_append_left (List.find?_some hfound) _ hmem]
        rfl
    · exact absurd hexpected hpub
  · have hparked : ∀ q ∈ s.inbox.replies, q.kind ∉ expected := (Inbox.take?_eq_none_iff.1 h).1
    refine ends_receive (fun hl => ?_) (fun l a s' hl H => ?_) fun l e s' hl H => ?_
    · exact ⟨.refl s, rfl, fun h => by simp [hl] at h⟩
    · cases a with
      | some p => exact ⟨H.stays hl, (H.reads hpub hl hparked).1 p rfl⟩
      | none =>
        refine ⟨H.stays hl, (H.reads hpub hl hparked).2 fun _ h => ?_, fun _ _ => rfl⟩
        cases h
    · refine ⟨H.stays hl, (H.reads hpub hl hparked).2 fun _ h => ?_, fun _ ho => ?_⟩
      · cases h
      exact absurd rfl (H.sound hl ho e)

/-- After `s` asked and got to `s'`, the first of the expected replies was read, be it one that was
due before or one to what was asked. -/
structure Answered (expected : List PayloadKind) (p : Payload) (s s' : Session Script.wire) :
    Prop where
  stays : Stays s s'
  first : (s.due ++ s.ownReplies).find? (·.kind ∈ expected) = some p
  rest : s'.due = (s.due ++ s.ownReplies).eraseP (·.kind ∈ expected)

/-- What `s` asked was not answered: it could not be sent, or no expected reply came in time. -/
structure Unanswered (e : SessionError) (s s' : Session Script.wire) : Prop where
  stays : Stays s s'
  rest : (∀ awaited, e ≠ .timeout awaited) ∧ s'.due = s.due ∨ s'.due = s.due ++ s.ownReplies ∧
    (s.Dialed → State.Orderly s.wire → ∃ awaited, e = .timeout awaited)

theorem ends_ask {expected : List PayloadKind} (hpub : .publish ∉ expected) {p : Payload}
    {budget : Session Script.wire → Nat} {awaited : String}
    {Q : Payload → Session Script.wire → Prop} {E : SessionError → Session Script.wire → Prop}
    (hQ : ∀ q s', Answered expected q s s' → Q q s') (hE : ∀ e s', Unanswered e s s' → E e s') :
    Ends s (send p) (fun _ s' => Ends s' (await expected (budget s') awaited) Q E) E := by
  refine (send_due s p).mono ?_ fun e s' ⟨ht, hs, hd⟩ => hE e s' ⟨hs, .inl ⟨ht, hd⟩⟩
  rintro _ s₁ ⟨hl, hs, hd⟩
  refine (ends_await hpub _ _ s₁).mono ?_ ?_
  · rintro q s₂ ⟨hs', hfirst, hrest⟩
    exact hQ q s₂ ⟨hs.trans hs', hd ▸ hfirst, hd ▸ hrest⟩
  · rintro e s₂ ⟨hs', hd', ht⟩
    refine hE e s₂ ⟨hs.trans hs', .inr ⟨hd'.trans hd, fun h ho => ⟨_, ht ?_ (hs.orderly h ho)⟩⟩⟩
    rwa [hs.link]

end Session

end Geocast
