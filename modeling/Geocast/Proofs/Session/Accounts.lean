import Geocast.Proofs.Session.Numbering

/-! # The accounts of a session

A session that began without a channel accounts for all its channels, whatever its operations come
to: the channels that it opened are numbered in order, each was closed once, and only the one that
is open was not (`accounted_after`). So the number of a channel tells which channel it is
(`Ledger.eq_of_opened`). -/

namespace Geocast

open WireEvent

namespace Ledger

variable {base n : Nat} {events : List WireEvent} {live : List Nat}

/-- Later accounts go on where the earlier ones end. -/
theorem append {more : List WireEvent} {live' : List Nat} (H : Ledger base events live)
    (H' : Ledger (base + openings events) more live') :
    Ledger base (more ++ events) (live' ++ live) where
  own e he n hn := by
    rcases List.mem_append.1 he with he | he
    · exact Nat.le_trans (Nat.le_add_right ..) (H'.own e he n hn)
    · exact H.own e he n hn
  opened n := by
    have hopenings : openings (more ++ events) = openings more + openings events := by
      simp [openings]
    rw [List.countP_append, H.opened, H'.opened, hopenings]
    split <;> split <;> split <;> omega
  closed n := by
    have hclosed := H.closed n
    have hclosed' := H'.closed n
    rw [List.countP_append, List.countP_append, List.count_append]
    omega

/-- A channel was opened to one address and under one id. -/
theorem eq_of_opened (H : Ledger base events live) {a a' i i' : String}
    (h : .opened n a i ∈ events) (h' : .opened n a' i' ∈ events) : a = a' ∧ i = i' := by
  have hmem : .opened n a i ∈ events.filter (·.opens n) := List.mem_filter.2 ⟨h, by simp⟩
  have hmem' : .opened n a' i' ∈ events.filter (·.opens n) := List.mem_filter.2 ⟨h', by simp⟩
  obtain ⟨e, he⟩ := List.length_eq_one_iff.1 (List.countP_eq_length_filter.symm.trans
    (H.opened_once h))
  rw [he, List.mem_singleton] at hmem hmem'
  cases hmem.trans hmem'.symm
  exact ⟨rfl, rfl⟩

end Ledger

namespace Session

variable {W : Wire} {s s' : Session W} {n : Nat}

/-- Of all channels that the session opened, each is closed but the one in use. -/
def Accounted (s : Session W) : Prop := Ledger 0 s.history (s.link.toList.map Link.number)

theorem opened_eq (s : Session W) : s.opened = 0 + openings s.history := (Nat.zero_add _).symm

theorem Traffic.accounted (H : Traffic n s s') (hs : s.Accounted) : s'.Accounted := by
  obtain ⟨events, hhistory, hevents⟩ := H.events
  rw [Accounted, hhistory, H.link]
  exact Ledger.traffic hs (Nat.zero_le n) hevents

theorem Accounted.closed (hs : s.Accounted) : s.closed.Accounted := by
  unfold Accounted Session.closed
  cases hl : s.link with
  | none => simpa [Accounted, hl] using hs
  | some l =>
    have hs : Ledger 0 s.history [l.number] := by simpa [Accounted, hl] using hs
    simpa using hs.close (n := l.number) (List.mem_singleton.2 rfl) l.address

/-- What a chain of redirects adds to the accounts, they account for. -/
theorem Hopping.accounted (H : Hopping s s') (hs : s.Accounted) : Ledger 0 s'.history
    (s'.link.toList.map Link.number ++ s.link.toList.map Link.number) := by
  obtain ⟨events, hhistory, hledger⟩ := H.events
  rw [hhistory]
  exact hs.append (s.opened_eq ▸ hledger)

theorem followRedirects_accounted (target : BrokerInfo) :
    Keeps (W := W) Accounted (fun _ => Accounted) (followRedirects target) := by
  intro s hs
  rw [ends_followRedirects]
  have H : Hopping s { s with link := none, inbox := .empty } :=
    ⟨⟨[], rfl, .empty _⟩, rfl, rfl, rfl⟩
  refine (hopUntilAccepted_hopping _ _ target _ H).mono (fun _ s' h => ?_) fun _ s' h => ?_
  · have hledger := h.accounted hs
    unfold movedFrom
    cases hl : s.link with
    | none => simpa [Accounted, hl] using hledger
    | some l =>
      -- the channel where the chain began is none of those on the way
      have hnew : l.number ∉ s'.link.toList.map Link.number := fun hmem => by
        obtain ⟨l', hl', hnumber⟩ := List.mem_map.1 hmem
        have hle := (h.moved l' (by simpa using hl')).1
        have hlt := (Ledger.bounds hs (n := l.number) (by simp [hl])).2
        rw [s.opened_eq] at hle
        omega
      rw [hl] at hledger
      have hclosed := hledger.close (n := l.number) (by simp) l.address
      rw [List.erase_append_right _ hnew] at hclosed
      simpa [Accounted] using hclosed
  · simpa [Accounted] using h.closed.accounted hs

theorem connect_accounted (address : String) :
    Keeps (W := W) Accounted (fun _ => Accounted) (connect address) := by
  intro s hs
  have hs : Ledger 0 s.closed.history [] := by simpa [Accounted] using hs.closed
  have hopened := hs.open_ address s.closed.id
  rw [← s.closed.opened_eq] at hopened
  refine ends_connect_of_traffic (fun c w s₁ h => h.accounted hopened)
    (fun target s₁ hs₁ => (followRedirects_accounted target s₁ hs₁).mono (fun _ _ h => h)
      fun _ _ h => h.closed)
    (fun _ _ hs₁ => hs₁.closed) fun e w => ?_
  simpa [Accounted] using hs.refuse address s.closed.id

theorem accounted_keeps : PartsKeep (W := W) Accounted :=
  .of_traffic (fun s hs => s.exists_uses.imp fun _ hn => ⟨hn, fun _ H => H.accounted hs⟩)
    connect_accounted followRedirects_accounted
    (fun _ hs => hs.closed) fun _ hs _ _ _ => hs

/-- Every session that operations lead to accounts for all its channels. -/
theorem accounted_after (id : String) (location : Option Location) (options : SessionOptions)
    (wire : W.State) (ops : List Operation) :
    ((start id location options wire).after ops).Accounted :=
  accounted_keeps.after (s := start id location options wire) (Ledger.empty 0) ops

end Session

end Geocast
