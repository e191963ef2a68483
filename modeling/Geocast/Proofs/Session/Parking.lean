import Geocast.Proofs.Session.Receiving

/-! # What is parked came in

A session parks nothing but what it receives on its channel. `Supplied` says so of a stretch of a
session in which it only sent and waited, and every way to send and to wait is such a stretch. A
wait for some kinds receives others up to the one that it returns (`Reception.came`) and leaves the
expected ones nowhere (`Reception.unexpected`). -/

namespace Geocast

namespace Inbox

variable {i i' : Inbox} {p q : Payload} {expected : List PayloadKind}

/-- All that is parked. -/
def contents (i : Inbox) : List Payload := i.replies ++ i.publications.map .publish

theorem mem_contents :
    p ∈ i.contents ↔ p ∈ i.replies ∨ ∃ q ∈ i.publications, .publish q = p := by
  rw [contents, List.mem_append, List.mem_map]

theorem eq_empty_of_contents (h : i.contents = []) : i = .empty := by
  obtain ⟨replies, publications⟩ := i
  obtain ⟨rfl, h⟩ := List.append_eq_nil_iff.1 h
  obtain rfl := List.map_eq_nil_iff.1 h
  rfl

theorem mem_contents_park : q ∈ (i.park p).contents ↔ q ∈ i.contents ∨ q = p := by
  have hreply (r : Payload) : q ∈ contents { i with replies := i.replies ++ [r] } ↔
      q ∈ i.contents ∨ q = r := by
    simp only [contents, List.mem_append, List.mem_singleton]
    exact or_right_comm
  cases p with
  | publish p => simp [contents, park, or_assoc, eq_comm]
  | _ => exact hreply _

/-- What is left when something was taken out was there before. -/
theorem contents_of_take? (h : i.take? expected = some (p, i')) (hq : q ∈ i'.contents) :
    q ∈ i.contents := by
  rw [mem_contents] at hq ⊢
  rcases take?_cases h with ⟨-, rfl⟩ | ⟨-, -, x, ps, -, hps, rfl⟩
  · exact hq.imp_left List.mem_of_mem_eraseP
  · rw [hps]
    exact hq.imp_right fun ⟨y, hy, hyq⟩ => ⟨y, List.mem_cons_of_mem x hy, hyq⟩

theorem take?_of_unexpected (h : ∀ p ∈ i.contents, p.kind ∉ expected) :
    i.take? expected = none := by
  refine take?_eq_none_iff.2 ⟨fun p hp => h p (mem_contents.2 (.inl hp)), fun hpub => ?_⟩
  refine List.eq_nil_iff_forall_not_mem.2 fun q hq => ?_
  exact h (.publish q) (mem_contents.2 (.inr ⟨q, hq, rfl⟩)) hpub

end Inbox

namespace Session

variable {W : Wire} {α : Type} {s s' s'' : Session W} {expected : List PayloadKind}

/-- From `s` to `s'` the session only sent and waited, and parked nothing but what came in. -/
structure Supplied (s s' : Session W) : Prop extends Steady s s' where
  history : s.history <:+ s'.history
  parked : ∀ p ∈ s'.inbox.contents, p ∈ s.inbox.contents ∨
    ∃ l, s.link = some l ∧ .received l.number p ∈ s'.history

namespace Supplied

theorem refl (s : Session W) : Supplied s s := ⟨.refl s, List.suffix_rfl, fun _ h => .inl h⟩

theorem trans (H : Supplied s s') (H' : Supplied s' s'') : Supplied s s'' where
  toSteady := H.toSteady.trans H'.toSteady
  history := H.history.trans H'.history
  parked p hp := by
    rcases H'.parked p hp with hp | ⟨l, hl, hp⟩
    · refine (H.parked p hp).imp_right fun ⟨l, hl, hp⟩ => ⟨l, hl, ?_⟩
      exact H'.history.subset hp
    · exact .inr ⟨l, H.link ▸ hl, hp⟩

/-- What happens on the wire or leaves the inbox. -/
theorem silent (s : Session W) (w : W.State) {i : Inbox}
    (hi : ∀ p ∈ i.contents, p ∈ s.inbox.contents) :
    Supplied s { s with wire := w, inbox := i } :=
  ⟨⟨rfl, rfl, rfl, rfl, rfl, rfl, rfl⟩, List.suffix_rfl, fun p hp => .inl (hi p hp)⟩

theorem got {l : Link W} (hl : s.link = some l) (p : Payload) (w : W.State) :
    Supplied s (s.got l.number p w) ∧
    Supplied s { s.got l.number p w with inbox := s.inbox.park p } := by
  refine ⟨⟨steady_got _ _ _ _ _, List.suffix_cons _ _, fun _ h => .inl h⟩,
    ⟨steady_got .., List.suffix_cons _ _, fun q hq => ?_⟩⟩
  refine (Inbox.mem_contents_park.1 hq).imp_right ?_
  rintro rfl
  exact ⟨l, hl, List.mem_cons_self⟩

end Supplied

theorem Reception.supplied {judge : Payload → Verdict α} {deadline : Nat} {l : Link W}
    {r : Except SessionError (Option α)} (H : Reception judge deadline l s r s')
    (hl : s.link = some l) : Supplied s s' := by
  induction H with
  | spent => exact .refl _
  | failed | silent => exact .silent _ _ fun _ h => h
  | accepted => exact (Supplied.got hl _ _).1
  | parked _ _ _ _ ih => exact (Supplied.got hl _ _).2.trans (ih hl)
  | dropped _ _ _ _ ih => exact (Supplied.got hl _ _).1.trans (ih hl)

/-! ## Sending and waiting -/

theorem send_supplied (s : Session W) (p : Payload) :
    Ends s (send p) (fun _ s' => Supplied s s') fun _ s' => Supplied s s' := by
  refine ends_send (fun _ => .refl s) (fun l w _ _ => ?_) fun l e w _ _ => ?_
  all_goals
    exact ⟨⟨rfl, rfl, rfl, rfl, rfl, rfl, rfl⟩, List.suffix_cons _ _, fun _ h => .inl h⟩

theorem receive_supplied (s : Session W) (judge : Payload → Verdict α) (budget : Nat) :
    Ends s (receive judge budget) (fun _ s' => Supplied s s') fun _ s' => Supplied s s' :=
  ends_receive (fun _ => .refl s) (fun _ _ _ hl H => H.supplied hl) fun _ _ _ hl H => H.supplied hl

theorem next?_supplied (s : Session W) (expected : List PayloadKind) (budget : Nat) :
    Ends s (next? expected budget) (fun _ s' => Supplied s s') fun _ s' => Supplied s s' :=
  ends_next? (fun _ _ h => .silent s s.wire fun _ => Inbox.contents_of_take? h)
    fun _ => receive_supplied s _ _

theorem listen_supplied (s : Session W) (action : FunctionAction) (id : RequestId)
    (budget : Nat) :
    Ends s (listen action id budget) (fun _ s' => Supplied s s') fun _ s' => Supplied s s' := by
  have hsilent {ps : List Publication} (hps : ∀ p ∈ ps, p ∈ s.inbox.publications) :
      Supplied s { s with inbox := { s.inbox with publications := ps } } := by
    refine .silent s s.wire fun q hq => ?_
    rw [Inbox.mem_contents] at hq ⊢
    exact hq.imp_right fun ⟨p, hp, hpq⟩ => ⟨p, hps p hp, hpq⟩
  exact ends_listen (fun _ _ hps => hsilent hps) fun _ hps => (receive_supplied _ _ _).mono
    (fun _ _ h => (hsilent hps).trans h) fun _ _ h => (hsilent hps).trans h

/-! ## Waiting for some kinds -/

/-- What comes in before the payload that a wait returns is of other kinds. -/
theorem Reception.came {deadline : Nat} {l : Link W} {r : Except SessionError (Option Payload)}
    (H : Reception (expecting expected) deadline l s r s') {p : Payload} (h : r = .ok (some p)) :
    ∃ between, s'.history = .received l.number p :: (between ++ s.history) ∧
      ∀ e ∈ between, ∃ q, e = .received l.number q ∧ q.kind ∉ expected := by
  induction H with
  | spent | failed | silent => exact nomatch h
  | accepted _ _ hj =>
    cases h
    unfold expecting at hj
    split at hj
    · cases hj
      exact ⟨[], rfl, List.forall_mem_nil _⟩
    · exact nomatch hj
  | @parked s q w _ _ _ _ hj _ ih =>
    obtain ⟨between, hhistory, hbetween⟩ := ih h
    refine ⟨between ++ [.received l.number q], ?_, fun e he => ?_⟩
    · rw [hhistory, List.append_assoc]
      rfl
    · rcases List.mem_append.1 he with he | he
      · exact hbetween e he
      · refine ⟨q, List.mem_singleton.1 he, fun hq => ?_⟩
        rw [expecting, if_pos hq] at hj
        exact nomatch hj
  | dropped _ _ hj =>
    unfold expecting at hj
    split at hj <;> exact nomatch hj

/-- A wait parks nothing of the kinds that it expects. -/
theorem Reception.unexpected {deadline : Nat} {l : Link W}
    {r : Except SessionError (Option Payload)}
    (H : Reception (expecting expected) deadline l s r s')
    (hs : ∀ p ∈ s.inbox.contents, p.kind ∉ expected) :
    ∀ p ∈ s'.inbox.contents, p.kind ∉ expected := by
  induction H with
  | parked _ _ hj _ ih =>
    refine ih fun q hq => ?_
    rcases Inbox.mem_contents_park.1 hq with hq | rfl
    · exact hs q hq
    · intro hkind
      rw [expecting, if_pos hkind] at hj
      exact nomatch hj
  | dropped _ _ _ _ ih => exact ih hs
  | _ => exact hs

end Session

end Geocast
