import Geocast.Proofs.Session.Conservation
import Geocast.Proofs.Session.Parking
import Mathlib.Data.List.TakeWhile

/-! # Waiting takes the first that is expected

`Wire.incoming` lists what comes in on a channel until a deadline, whoever waits for what. A session
that waits for payloads of some kinds receives these one after the other, up to the first of an
expected kind, and parks those ahead of it in their order (`Reception.selects`). What is parked
already goes before: so a wait returns the first that is expected in the order replies,
publications, arrivals (`ends_await_awaited`). -/

namespace Geocast

/-! ## What comes in -/

/-- What comes in on a channel until a deadline. -/
structure Wire.Incoming (W : Wire) where
  /-- The payloads, the first one first, each with the state of the wire after it. -/
  arrivals : List (Payload × W.State)
  /-- Why nothing more comes in, unless the time is over. -/
  failure : Option SessionError
  /-- The state of the wire in the end. -/
  final : W.State

namespace Wire

variable {W : Wire}

/-- What comes in on a channel until a deadline, if a client does nothing but receive. -/
def incoming (W : Wire) (c : W.Channel) (deadline : Nat) (w : W.State) : W.Incoming :=
  let budget := deadline - W.now w
  if budget = 0 then ⟨[], none, w⟩
  else
    match _h : W.recv c budget w with
    | (.error e, w') => ⟨[], some e, w'⟩
    | (.ok none, w') => ⟨[], none, w'⟩
    | (.ok (some p), w') =>
      let later := incoming W c deadline w'
      { later with arrivals := (p, w') :: later.arrivals }
termination_by W.pending w
decreasing_by
  have := W.pending_recv c (deadline - W.now w) w p (by rw [_h])
  rw [_h] at this
  exact this

theorem incoming_eq (c : W.Channel) (deadline : Nat) (w : W.State) : W.incoming c deadline w =
    if deadline - W.now w = 0 then ⟨[], none, w⟩
    else match W.recv c (deadline - W.now w) w with
      | (.error e, w') => ⟨[], some e, w'⟩
      | (.ok none, w') => ⟨[], none, w'⟩
      | (.ok (some p), w') => { W.incoming c deadline w' with
          arrivals := (p, w') :: (W.incoming c deadline w').arrivals } := by
  rw [incoming]
  dsimp only
  split
  · rfl
  · split <;> next h => rw [h]

namespace Incoming

def payloads (i : W.Incoming) : List Payload := i.arrivals.map Prod.fst

/-- The payloads ahead of the first one of an expected kind. -/
def ahead (i : W.Incoming) (expected : List PayloadKind) : List Payload :=
  i.payloads.takeWhile fun p => p.kind ∉ expected

/-- The first payload of an expected kind, and the wire after it. -/
def first? (i : W.Incoming) (expected : List PayloadKind) : Option (Payload × W.State) :=
  i.arrivals.find? fun m => m.1.kind ∈ expected

section
variable {expected : List PayloadKind} {i : W.Incoming} {p : Payload} {w : W.State}

theorem find?_payloads (i : W.Incoming) (expected : List PayloadKind) :
    i.payloads.find? (·.kind ∈ expected) = (i.first? expected).map Prod.fst :=
  List.find?_map

theorem ahead_cons (h : p.kind ∉ expected) :
    ahead { i with arrivals := (p, w) :: i.arrivals } expected = p :: i.ahead expected :=
  List.takeWhile_cons_of_pos (by simpa using h)

theorem first?_cons (h : p.kind ∉ expected) :
    first? { i with arrivals := (p, w) :: i.arrivals } expected = i.first? expected :=
  List.find?_cons_of_neg (by simpa using h)

theorem ahead_cons_of_mem (h : p.kind ∈ expected) :
    ahead { i with arrivals := (p, w) :: i.arrivals } expected = [] :=
  List.takeWhile_cons_of_neg (by simpa using h)

theorem first?_cons_of_mem (h : p.kind ∈ expected) :
    first? { i with arrivals := (p, w) :: i.arrivals } expected = some (p, w) :=
  List.find?_cons_of_pos (by simpa using h)

theorem ahead_of_first?_none (h : i.first? expected = none) : i.ahead expected = i.payloads := by
  refine List.takeWhile_eq_self_iff.2 fun p hp => ?_
  obtain ⟨m, hm, rfl⟩ := List.mem_map.1 hp
  simpa using List.find?_eq_none.1 h m hm

theorem kind_of_mem_ahead (h : p ∈ i.ahead expected) : p.kind ∉ expected := by
  simpa using List.mem_takeWhile_imp h

end

end Incoming

end Wire

namespace Inbox

variable {i i' : Inbox} {p : Payload} {expected : List PayloadKind}

/-- What is taken out is the first that is expected, and only that. -/
theorem contents_take? (h : i.take? expected = some (p, i')) :
    i.contents.find? (·.kind ∈ expected) = some p ∧
      i'.contents = i.contents.eraseP (·.kind ∈ expected) := by
  rcases take?_cases h with ⟨hfound, rfl⟩ | ⟨hnone, hpub, q, ps, rfl, hps, rfl⟩
  · have hp : p.kind ∈ expected := by simpa using List.find?_some hfound
    refine ⟨by rw [contents, List.find?_append, hfound, Option.some_or], ?_⟩
    exact (List.eraseP_append_left (p := fun q : Payload => q.kind ∈ expected)
      (decide_eq_true hp) _ (List.mem_of_find?_eq_some hfound)).symm
  · have hkind : (Payload.publish q).kind ∈ expected := hpub
    constructor
    · rw [contents, List.find?_append, hnone, Option.none_or, hps]
      simp [hkind]
    · rw [contents, contents, List.eraseP_append_right _ (List.find?_eq_none.1 hnone), hps]
      simp [hkind]

theorem find?_contents_of_none (h : i.take? expected = none) :
    i.contents.find? (·.kind ∈ expected) = none := by
  obtain ⟨hreplies, hpublications⟩ := take?_eq_none_iff.1 h
  refine List.find?_eq_none.2 fun p hp => ?_
  rcases mem_contents.1 hp with hp | ⟨q, hq, rfl⟩
  · simpa using hreplies p hp
  · intro hkind
    rw [hpublications (of_decide_eq_true hkind)] at hq
    exact absurd hq List.not_mem_nil

end Inbox

namespace Session

variable {W : Wire} {s s' : Session W} {expected : List PayloadKind}

/-! ## Waiting on a channel -/

/-- A wait for `expected` that ended in `r`, while `i` came in on the channel numbered `n`. -/
structure Selects (expected : List PayloadKind) (n : Nat) (i : W.Incoming) (s : Session W)
    (r : Except SessionError (Option Payload)) (s' : Session W) : Prop extends Steady s s' where
  history : s'.history = ((i.ahead expected ++ ((i.first? expected).map Prod.fst).toList).map
    (.received n)).reverse ++ s.history
  replies : s'.inbox.replies = s.inbox.replies ++ (i.ahead expected).filter (·.kind ≠ .publish)
  publications : s'.inbox.publications =
    s.inbox.publications ++ (i.ahead expected).filterMap Payload.publication?
  found : ∀ p w, i.first? expected = some (p, w) → r = .ok (some p) ∧ s'.wire = w
  ended : i.first? expected = none →
    r = i.failure.elim (.ok none) .error ∧ s'.wire = i.final

/-- Nothing comes in any more. -/
theorem Selects.silent {n : Nat} (s : Session W) (e : Option SessionError) (w : W.State) :
    Selects expected n ⟨[], e, w⟩ s (e.elim (.ok none) .error) { s with wire := w } where
  toSteady := ⟨rfl, rfl, rfl, rfl, rfl, rfl, rfl⟩
  history := rfl
  replies := (List.append_nil _).symm
  publications := (List.append_nil _).symm
  found _ _ h := by cases h
  ended _ := ⟨rfl, rfl⟩

/-- A payload of another kind comes in ahead and is parked. -/
theorem Selects.cons {n : Nat} {i : W.Incoming} {p : Payload} {w : W.State}
    {r : Except SessionError (Option Payload)} (hp : p.kind ∉ expected)
    (H : Selects expected n i { s.got n p w with inbox := s.inbox.park p } r s') :
    Selects expected n { i with arrivals := (p, w) :: i.arrivals } s r s' where
  toSteady := .trans (steady_got ..) H.toSteady
  history := by
    rw [H.history, Wire.Incoming.ahead_cons hp, Wire.Incoming.first?_cons hp, List.cons_append,
      List.map_cons, List.reverse_cons, List.append_assoc]
    rfl
  replies := by
    rw [H.replies, Wire.Incoming.ahead_cons hp]
    cases p <;> simp [Inbox.park, Payload.kind]
  publications := by
    rw [H.publications, Inbox.publications_park, Wire.Incoming.ahead_cons hp, List.append_assoc,
      List.filterMap_cons]
    cases p.publication? <;> rfl
  found q w' h := H.found q w' (by rwa [Wire.Incoming.first?_cons hp] at h)
  ended h := H.ended (by rwa [Wire.Incoming.first?_cons hp] at h)

/-- If nothing was found, what came in was of other kinds. -/
theorem Selects.history_of_nothing {n : Nat} {i : W.Incoming}
    {r : Except SessionError (Option Payload)} (H : Selects expected n i s r s')
    (hr : ∀ p, r ≠ .ok (some p)) :
    s'.history = ((i.ahead expected).map (.received n)).reverse ++ s.history := by
  have hfirst : i.first? expected = none :=
    Option.eq_none_iff_forall_ne_some.2 fun m hm => hr m.1 (H.found m.1 m.2 hm).1
  rw [H.history, hfirst]
  exact congrArg (fun ps => (ps.map (WireEvent.received n)).reverse ++ s.history)
    (List.append_nil _)

theorem Reception.selects {deadline : Nat} {l : Link W} {r : Except SessionError (Option Payload)}
    (H : Reception (expecting expected) deadline l s r s') :
    Selects expected l.number (W.incoming l.channel deadline s.wire) s r s' := by
  have haccepted {p q : Payload} (h : expecting expected p = .accept q) :
      q = p ∧ p.kind ∈ expected := by
    unfold expecting at h
    split at h
    · next hp =>
      cases h
      exact ⟨rfl, hp⟩
    · cases h
  induction H with
  | @spent s h =>
    rw [Wire.incoming_eq, if_pos h]
    exact .silent s none s.wire
  | @failed s e w h hr =>
    rw [Wire.incoming_eq, if_neg h, hr]
    exact .silent s (some e) w
  | @silent s w h hr =>
    rw [Wire.incoming_eq, if_neg h, hr]
    exact .silent s none w
  | @accepted s p w q h hr hj =>
    obtain ⟨rfl, hp⟩ := haccepted hj
    rw [Wire.incoming_eq, if_neg h, hr]
    have hahead := Wire.Incoming.ahead_cons_of_mem (w := w)
      (i := W.incoming l.channel deadline w) hp
    have hfirst := Wire.Incoming.first?_cons_of_mem (w := w)
      (i := W.incoming l.channel deadline w) hp
    exact {
      toSteady := steady_got _ _ _ _ _
      history := by rw [hahead, hfirst]; rfl
      replies := by rw [hahead]; exact (List.append_nil _).symm
      publications := by rw [hahead]; exact (List.append_nil _).symm
      found := fun p' w' h => by
        cases hfirst.symm.trans h
        exact ⟨rfl, rfl⟩
      ended := fun h => by cases hfirst.symm.trans h }
  | @parked s p w r s' h hr hj _ ih =>
    have hp : p.kind ∉ expected := fun hp => by
      rw [expecting, if_pos hp] at hj
      cases hj
    rw [Wire.incoming_eq, if_neg h, hr]
    exact ih.cons hp
  | dropped _ _ hj =>
    unfold expecting at hj
    split at hj <;> cases hj

/-! ## Waiting in the inbox first -/

/-- What comes in on the channel in use within a budget of time. -/
def incoming (s : Session W) (budget : Nat) : W.Incoming :=
  match s.link with
  | some l => W.incoming l.channel (W.now s.wire + budget) s.wire
  | none => ⟨[], some .channelClosed, s.wire⟩

/-- A wait takes the first parked payload that is expected, and if there is none, the first that
comes in. -/
theorem ends_next?_selects {budget : Nat} {Q : Option Payload → Session W → Prop}
    {E : SessionError → Session W → Prop}
    (hparked : ∀ p i, s.inbox.take? expected = some (p, i) → Q (some p) { s with inbox := i })
    (hok : ∀ n a s', s.inbox.take? expected = none → s.Uses n →
      Selects expected n (s.incoming budget) s (.ok a) s' → Q a s')
    (herror : ∀ n e s', s.inbox.take? expected = none → s.Uses n →
      Selects expected n (s.incoming budget) s (.error e) s' → E e s') :
    Ends s (next? expected budget) Q E := by
  have hincoming {l : Link W} (hl : s.link = some l) :
      s.incoming budget = W.incoming l.channel (W.now s.wire + budget) s.wire := by
    rw [incoming, hl]
  refine ends_next? hparked fun hnone => ends_receive (fun hl => ?_)
    (fun l a s' hl H => ?_) fun l e s' hl H => ?_
  · refine herror 0 _ s hnone (fun l h => by cases hl.symm.trans h) ?_
    rw [incoming, hl]
    exact .silent s (some .channelClosed) s.wire
  · exact hok l.number a s' hnone (uses_of_link hl) (hincoming hl ▸ H.selects)
  · exact herror l.number e s' hnone (uses_of_link hl) (hincoming hl ▸ H.selects)

/-- What a wait for a reply comes to. -/
structure Awaited (expected : List PayloadKind) (budget : Nat) (awaited : String) (s : Session W)
    (r : Except SessionError Payload) (s' : Session W) : Prop where
  /-- It returns the first that is expected, in the order replies, publications, arrivals. -/
  first : r.toOption =
    (s.inbox.contents ++ (s.incoming budget).payloads).find? (·.kind ∈ expected)
  /-- If that was parked, it is taken out, and nothing is received. -/
  parked : ∀ p, s.inbox.contents.find? (·.kind ∈ expected) = some p → ∃ i, r = .ok p ∧
    s' = { s with inbox := i } ∧ i.contents = s.inbox.contents.eraseP (·.kind ∈ expected)
  /-- Otherwise what comes in ahead of it is received, and parked behind what was parked before.
  Unless something expected comes in, that is all, and the wait fails as the wire does or because
  the time is over. -/
  received : s.inbox.contents.find? (·.kind ∈ expected) = none → ∃ n, s.Uses n ∧ Steady s s' ∧
    s'.history = (((s.incoming budget).ahead expected ++ r.toOption.toList).map
      (.received n)).reverse ++ s.history ∧
    s'.inbox.replies =
      s.inbox.replies ++ ((s.incoming budget).ahead expected).filter (·.kind ≠ .publish) ∧
    s'.inbox.publications = s.inbox.publications ++
      ((s.incoming budget).ahead expected).filterMap Payload.publication? ∧
    (∀ p w, (s.incoming budget).first? expected = some (p, w) → r = .ok p ∧ s'.wire = w) ∧
    ((s.incoming budget).first? expected = none →
      r = .error ((s.incoming budget).failure.getD (.timeout awaited)) ∧
      s'.wire = (s.incoming budget).final ∧
      (s.incoming budget).ahead expected = (s.incoming budget).payloads)

/-- The reply that a wait without a parked one comes to. -/
theorem Selects.awaited {budget : Nat} {awaited : String} {n : Nat}
    {r : Except SessionError (Option Payload)} (hnone : s.inbox.take? expected = none)
    (hn : s.Uses n) (H : Selects expected n (s.incoming budget) s r s') :
    Awaited expected budget awaited s
      (r.bind fun a => a.elim (.error (.timeout awaited)) .ok) s' := by
  have hcontents := Inbox.find?_contents_of_none hnone
  have hfind : (s.inbox.contents ++ (s.incoming budget).payloads).find? (·.kind ∈ expected) =
      ((s.incoming budget).first? expected).map Prod.fst := by
    rw [List.find?_append, hcontents, Option.none_or, Wire.Incoming.find?_payloads]
  have hparked (p : Payload) (h : s.inbox.contents.find? (·.kind ∈ expected) = some p) :
      False := by
    cases hcontents.symm.trans h
  cases hfirst : (s.incoming budget).first? expected with
  | some m =>
    obtain ⟨rfl, hwire⟩ := H.found m.1 m.2 hfirst
    refine ⟨by rw [hfind, hfirst]; rfl, fun p h => (hparked p h).elim, fun _ => ⟨n, hn,
      H.toSteady, ?_, H.replies, H.publications, fun p w h => ?_, fun h => ?_⟩⟩
    · rw [H.history, hfirst]
      rfl
    · cases hfirst.symm.trans h
      exact ⟨rfl, hwire⟩
    · cases hfirst.symm.trans h
  | none =>
    obtain ⟨rfl, hwire⟩ := H.ended hfirst
    have hfailed : ((s.incoming budget).failure.elim (.ok none) .error :
        Except SessionError (Option Payload)).bind
          (fun a => a.elim (.error (.timeout awaited)) .ok) =
        .error ((s.incoming budget).failure.getD (.timeout awaited)) := by
      cases (s.incoming budget).failure <;> rfl
    rw [hfailed]
    refine ⟨by rw [hfind, hfirst]; rfl, fun p h => (hparked p h).elim, fun _ => ⟨n, hn,
      H.toSteady, ?_, H.replies, H.publications, fun p w h => ?_, fun _ => ?_⟩⟩
    · rw [H.history, hfirst]
      rfl
    · cases hfirst.symm.trans h
    · exact ⟨rfl, hwire, Wire.Incoming.ahead_of_first?_none hfirst⟩

theorem ends_await_awaited (s : Session W) (expected : List PayloadKind) (budget : Nat)
    (awaited : String) : Ends s (await expected budget awaited)
      (fun p s' => Awaited expected budget awaited s (.ok p) s')
      fun e s' => Awaited expected budget awaited s (.error e) s' := by
  rw [await, ends_bind]
  refine ends_next?_selects (fun p i h => ?_) (fun n a s' hnone hn H => ?_)
    fun n e s' hnone hn H => H.awaited hnone hn
  · obtain ⟨hfind, hcontents⟩ := Inbox.contents_take? h
    refine ⟨?_, fun q hq => ?_, fun hq => ?_⟩
    · rw [List.find?_append, hfind, Option.some_or]
      rfl
    · cases hfind.symm.trans hq
      exact ⟨i, rfl, rfl, hcontents⟩
    · cases hfind.symm.trans hq
  · cases a with
    | none => exact H.awaited hnone hn
    | some p => exact H.awaited hnone hn

end Session

end Geocast
