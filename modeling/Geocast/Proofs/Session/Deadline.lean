import Geocast.Federation
import Geocast.Proofs.Session.Receiving
import Geocast.Session.Script

/-! # Waits keep their deadline

A wait receives again and again, each time with what is left of its budget. On a wire that is
punctual itself (`Wire.Punctual`), what comes in meanwhile does not put off the deadline, and nobody
gives up before it: from one payload to the next the clock stays within the deadline, and the wait
is over only on the deadline (`Reception.onTime`). This holds of every wait, whatever is parked and
whatever comes in (`waits_onTime`). Federations and scripts are punctual. -/

namespace Geocast

/-- The error says that the time was over. -/
def SessionError.IsTimeout : SessionError → Prop
  | timeout _ => True
  | _ => False

/-- A wait ended because the time was over. -/
def Elapsed {α : Type} : Except SessionError (Option α) → Prop
  | .ok a => a = none
  | .error e => e.IsTimeout

/-- Receiving with a budget takes at most the budget, and all of it if nothing comes in. This is so
in all states in which `P` holds, and receiving keeps `P`. -/
structure Wire.Punctual (W : Wire) (P : W.State → Prop) : Prop where
  keeps : ∀ c budget w, P w → P (W.recv c budget w).2
  within : ∀ c budget w, P w → W.now (W.recv c budget w).2 ≤ W.now w + budget
  elapsed : ∀ c budget w, P w → Elapsed (W.recv c budget w).1 →
    W.now (W.recv c budget w).2 = W.now w + budget

/-- In a federation what there is to receive is there at once. -/
theorem Federation.punctual : Federation.wire.Punctual fun _ => True where
  keeps _ _ _ _ := trivial
  within c budget f _ := by
    show (Federation.recv c budget f).2.clock ≤ f.clock + budget
    unfold Federation.recv
    split
    · exact Nat.le_add_right ..
    · exact Nat.le_refl _
  elapsed c budget f _ h := by
    change Elapsed (Federation.recv c budget f).1 at h
    show (Federation.recv c budget f).2.clock = f.clock + budget
    unfold Federation.recv at h ⊢
    split
    · next hm =>
      rw [hm] at h
      cases h
    · rfl

namespace Script

/-- No failure that is on its way says that the time is over. -/
def State.Timely (w : State) : Prop := ∀ a ∈ w.arrivals, ∀ e, a.item = .failure e → ¬ e.IsTimeout

theorem punctual : Script.wire.Punctual State.Timely where
  keeps c budget w hw := by
    show (recv c budget w).2.Timely
    unfold recv
    split
    · exact hw
    · dsimp only
      split
      · exact hw
      · have hrest (a : Arrival) (ha : a ∈ w.arrivals.eraseP (Arrival.isFor c)) :=
          hw a (List.mem_of_mem_eraseP ha)
        split <;> exact hrest
  within c budget w _ := by
    show (recv c budget w).2.clock ≤ w.clock + budget
    unfold recv
    split
    · exact Nat.le_refl _
    · dsimp only
      split
      · exact Nat.le_refl _
      · next hready =>
        have hmax := Nat.max_le.2 ⟨Nat.le_add_right w.clock budget, Nat.le_of_not_lt hready⟩
        split <;> exact hmax
  elapsed c budget w hw h := by
    change Elapsed (recv c budget w).1 at h
    show (recv c budget w).2.clock = w.clock + budget
    revert h
    unfold recv
    split
    · exact fun _ => rfl
    · next a ha =>
      dsimp only
      split
      · exact fun _ => rfl
      · split
        · intro h
          cases h
        · next e he =>
          exact fun h => absurd h (hw a (List.mem_of_find?_eq_some ha) e he)

end Script

namespace Session

variable {W : Wire} {P : W.State → Prop} {α : Type} {s s' : Session W} {deadline budget : Nat}
  {ended ended' : Prop}

/-- The deadline is not past, and if the time has `ended`, it is reached. -/
structure OnTime (deadline : Nat) (ended : Prop) (s : Session W) : Prop where
  within : W.now s.wire ≤ deadline
  elapsed : ended → W.now s.wire = deadline

theorem OnTime.imp (H : OnTime deadline ended s) (h : ended' → ended) : OnTime deadline ended' s :=
  ⟨H.within, fun hended => H.elapsed (h hended)⟩

/-- What takes no time, unless the time is over by that. -/
theorem onTime_at_once (h : ¬ ended) : OnTime (W.now s.wire + budget) ended s :=
  ⟨Nat.le_add_right .., fun hended => absurd hended h⟩

/-- What comes in takes no more time than is left. -/
theorem Reception.onTime (hW : W.Punctual P) {judge : Payload → Verdict α} {l : Link W}
    {r : Except SessionError (Option α)} (H : Reception judge deadline l s r s') (hs : P s.wire)
    (hnow : W.now s.wire ≤ deadline) : OnTime deadline (Elapsed r) s' := by
  have hrecv {s : Session W} {x : Except SessionError (Option Payload)} {w : W.State}
      (hs : P s.wire) (hnow : W.now s.wire ≤ deadline)
      (hr : W.recv l.channel (deadline - W.now s.wire) s.wire = (x, w)) :
      P w ∧ OnTime deadline (Elapsed x) { s with wire := w } := by
    have hkept := hW.keeps l.channel (deadline - W.now s.wire) s.wire hs
    have hwithin := hW.within l.channel (deadline - W.now s.wire) s.wire hs
    have helapsed := hW.elapsed l.channel (deadline - W.now s.wire) s.wire hs
    rw [hr, Nat.add_sub_cancel' hnow] at hwithin helapsed
    rw [hr] at hkept
    exact ⟨hkept, hwithin, helapsed⟩
  induction H with
  | spent h => exact ⟨hnow, fun _ => Nat.le_antisymm hnow (Nat.le_of_sub_eq_zero h)⟩
  | failed _ hr => exact (hrecv hs hnow hr).2
  | silent _ hr => exact (hrecv hs hnow hr).2.imp fun _ => rfl
  | accepted _ hr => exact ⟨(hrecv hs hnow hr).2.within, nofun⟩
  | parked _ hr _ _ ih | dropped _ hr _ _ ih =>
    obtain ⟨hkept, h⟩ := hrecv hs hnow hr
    exact ih hkept h.within

/-! ## Waits -/

section
variable (hW : W.Punctual P) (hs : P s.wire)
include hW hs

theorem receive_onTime (judge : Payload → Verdict α) (budget : Nat) :
    Ends s (receive judge budget) (fun a => OnTime (W.now s.wire + budget) (a = none))
      fun e => OnTime (W.now s.wire + budget) e.IsTimeout := by
  refine ends_receive (fun _ => onTime_at_once not_false) (fun l a s' _ H => ?_)
    fun l e s' _ H => ?_
  all_goals exact H.onTime hW hs (Nat.le_add_right ..)

theorem next?_onTime (expected : List PayloadKind) (budget : Nat) :
    Ends s (next? expected budget) (fun p => OnTime (W.now s.wire + budget) (p = none))
      fun e => OnTime (W.now s.wire + budget) e.IsTimeout :=
  ends_next? (fun p i _ => onTime_at_once (s := { s with inbox := i }) (Option.some_ne_none p))
    fun _ => receive_onTime hW hs _ _

theorem await_onTime (expected : List PayloadKind) (budget : Nat) (awaited : String) :
    Ends s (await expected budget awaited) (fun _ => OnTime (W.now s.wire + budget) False)
      fun e => OnTime (W.now s.wire + budget) e.IsTimeout := by
  rw [await, ends_bind]
  refine (next?_onTime hW hs expected budget).mono (fun a s' h => ?_) fun _ _ h => h
  cases a with
  | none => exact h.imp fun _ => rfl
  | some p => exact h.imp False.elim

theorem nextPublication_onTime (budget : Nat) :
    Ends s (nextPublication budget) (fun p => OnTime (W.now s.wire + budget) (p = none))
      fun e => OnTime (W.now s.wire + budget) e.IsTimeout := by
  rw [nextPublication, ends_bind]
  refine (next?_onTime hW hs [.publish] budget).mono (fun a s' h => ?_) fun _ _ h => h
  split
  · exact h.imp nofun
  · exact h.imp False.elim
  · exact h.imp fun _ => rfl

theorem listen_onTime (action : FunctionAction) (id : RequestId) (budget : Nat) :
    Ends s (listen action id budget) (fun m => OnTime (W.now s.wire + budget) (m = none))
      fun e => OnTime (W.now s.wire + budget) e.IsTimeout :=
  ends_listen
    (fun ps m _ => onTime_at_once (s := { s with inbox := { s.inbox with publications := ps } })
      (Option.some_ne_none m))
    fun ps _ => receive_onTime (s := { s with inbox := { s.inbox with publications := ps } })
      hW hs _ _

end

/-- On a punctual wire every wait ends within its budget, whatever is parked and however much comes
in meanwhile. A wait that fails for lack of time, or ends with nothing, ends on the deadline. -/
theorem waits_onTime (hW : W.Punctual P) (s : Session W) (hs : P s.wire) (budget : Nat) :
    let deadline := W.now s.wire + budget
    (∀ expected awaited, OnTime deadline
      (∃ what, (exec (await expected budget awaited) s).1 = .error (.timeout what))
      (exec (await expected budget awaited) s).2) ∧
    (∀ action id, OnTime deadline (Elapsed (exec (listen action id budget) s).1)
      (exec (listen action id budget) s).2) ∧
    OnTime deadline (Elapsed (exec (nextPublication budget) s).1)
      (exec (nextPublication budget) s).2 := by
  intro deadline
  refine ⟨fun expected awaited => ?_, fun action id => ?_, ?_⟩
  · refine Ends.result (R := fun r s' => OnTime deadline (∃ what, r = .error (.timeout what)) s') ?_
    refine (await_onTime hW hs expected budget awaited).mono (fun p s' h => h.imp ?_)
      fun e s' h => h.imp ?_
    · rintro ⟨what, h⟩
      cases h
    · rintro ⟨what, h⟩
      cases h
      trivial
  · exact Ends.result (R := fun r s' => OnTime deadline (Elapsed r) s')
      (listen_onTime hW hs action id budget)
  · exact Ends.result (R := fun r s' => OnTime deadline (Elapsed r) s')
      (nextPublication_onTime hW hs budget)

/-- A session with a channel on which a publication comes in every millisecond. -/
def pestered : Session Script.wire :=
  let publication (n : Nat) : Script.Arrival :=
    ⟨0, n, .payload (.publish ⟨⟨"x"⟩, .undefined, toString n⟩)⟩
  { start "c" none ⟨100, 100, 100, 3⟩ { Script.start [] ∅ 0 with
      arrivals := (List.range 12).map publication } with
    link := some ⟨⟨0, "a:1"⟩, 0, "a:1"⟩ }

/-- It waits 10 milliseconds for an acknowledgement, no less and no more, and parks what comes
in. -/
theorem pestered_onTime :
    (∃ what, (exec (await [.pubAck] 10 "PUBACK") pestered).1 = .error (.timeout what)) ∧
    (exec (await [.pubAck] 10 "PUBACK") pestered).2.inbox.publications.length = 11 ∧
    Script.wire.now (exec (await [.pubAck] 10 "PUBACK") pestered).2.wire = 10 := by
  have htimely : pestered.wire.Timely := by
    intro a ha e he
    obtain ⟨n, -, rfl⟩ := List.mem_map.1 ha
    cases he
  have hfails : ∃ what,
      (exec (await [.pubAck] 10 "PUBACK") pestered).1 = .error (.timeout what) := by
    have h : (match (exec (await [.pubAck] 10 "PUBACK") pestered).1 with
        | .error e => decide (e = .timeout "PUBACK")
        | .ok _ => false) = true := by decide +kernel
    generalize (exec (await [.pubAck] 10 "PUBACK") pestered).1 = r at h ⊢
    cases r with
    | error e => exact ⟨_, congrArg Except.error (of_decide_eq_true h)⟩
    | ok p => cases h
  exact ⟨hfails, by decide +kernel,
    ((waits_onTime Script.punctual pestered htimely 10).1 [.pubAck] "PUBACK").elapsed hfails⟩

end Session

end Geocast
