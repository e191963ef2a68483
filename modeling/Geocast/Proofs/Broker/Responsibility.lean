import Geocast.Broker.Handle
import Mathlib.Tactic

/-! # Which broker is responsible

Every broker of a federation splits the same list of areas into its own and those of its peers, and
decides by its own split (`Atlas.view`). `Serves` says what responsibility means with the list as a
whole; a broker's own decision comes to the same (`isResponsibleFor_view`). The broker that another
one names is responsible itself (`serves_of_peerFor?`), and where the regular areas do not overlap
there is no other. -/

namespace Geocast

/-- The areas that a federation can be built from: no two brokers have the same id, and one of them
is the root at most. -/
structure Chartable (areas : List BrokerArea) : Prop where
  distinct : (areas.map (·.broker.id)).Nodup
  oneRoot : (areas.filter (·.root)).length ≤ 1

/-- Whether the broker of the area `a` has to serve a client at `l`: the root those whom no regular
area covers, any other broker those in its own area. -/
def Serves (areas : List BrokerArea) (a : BrokerArea) (l : Option Location) : Prop :=
  if a.root then ∀ b ∈ areas, ∀ p ∈ l, b.covers p = false else ∃ p ∈ l, a.area.contains p

/-- The areas as the broker of the area `a` sees them. -/
def Atlas.view (areas : List BrokerArea) (a : BrokerArea) : Atlas :=
  ⟨a, areas.filter fun b => b.broker.id ≠ a.broker.id⟩

namespace BrokerArea

theorem covers_of_root {a : BrokerArea} (h : a.root = true) (p : Location) :
    a.covers p = false := by
  simp [covers, h]

theorem covers_of_regular {a : BrokerArea} (h : a.root = false) (p : Location) :
    a.covers p = a.area.contains p := by
  simp [covers, h]

theorem regular_of_covers {a : BrokerArea} {p : Location} (h : a.covers p = true) :
    a.root = false := by
  simp only [covers, Bool.and_eq_true, Bool.not_eq_true'] at h
  exact h.1

end BrokerArea

namespace Chartable

variable {areas : List BrokerArea} {a b : BrokerArea} {l : Option Location}

theorem eq_of_id (H : Chartable areas) (ha : a ∈ areas) (hb : b ∈ areas)
    (h : a.broker.id = b.broker.id) : a = b :=
  List.inj_on_of_nodup_map H.distinct ha hb h

theorem eq_of_root (H : Chartable areas) (ha : a ∈ areas) (hb : b ∈ areas) (hra : a.root = true)
    (hrb : b.root = true) : a = b := by
  have ha' : a ∈ areas.filter (·.root) := List.mem_filter.2 ⟨ha, hra⟩
  have hb' : b ∈ areas.filter (·.root) := List.mem_filter.2 ⟨hb, hrb⟩
  have hone := H.oneRoot
  generalize areas.filter (·.root) = roots at ha' hb' hone
  cases roots with
  | nil => exact nomatch ha'
  | cons r rest =>
    obtain rfl : rest = [] := List.length_eq_zero_iff.1 (by simpa using hone)
    rw [List.mem_singleton.1 ha', List.mem_singleton.1 hb']

theorem mem_view (H : Chartable areas) (ha : a ∈ areas) :
    b ∈ (Atlas.view areas a).others ↔ b ∈ areas ∧ b ≠ a := by
  rw [Atlas.view, List.mem_filter, decide_eq_true_eq]
  exact and_congr_right fun hb => not_congr ⟨H.eq_of_id hb ha, fun h => h ▸ rfl⟩

/-- Every broker of the list gets its atlas. -/
theorem ofAreas_eq (H : Chartable areas) (ha : a ∈ areas) :
    Atlas.ofAreas a.broker.id areas = .ok (.view areas a) := by
  have hfind : areas.find? (fun b => b.broker.id = a.broker.id) = some a := by
    obtain ⟨b, hb⟩ := Option.isSome_iff_exists.1
      (List.find?_isSome.2 ⟨a, ha, by simp⟩ :
        (areas.find? fun b => b.broker.id = a.broker.id).isSome)
    rw [hb, H.eq_of_id (List.mem_of_find?_eq_some hb) ha (by simpa using List.find?_some hb)]
  rw [Atlas.ofAreas, if_neg (Nat.not_lt.2 H.oneRoot), hfind]
  rfl

/-! ## One broker's decision -/

theorem isResponsibleFor_view (H : Chartable areas) (ha : a ∈ areas) :
    (Atlas.view areas a).isResponsibleFor l ↔ Serves areas a l := by
  cases hroot : a.root with
  | true =>
    simp only [Atlas.isResponsibleFor, Serves, Atlas.view, hroot, if_true, Bool.not_eq_true',
      List.any_eq_false, Bool.not_eq_true]
    constructor
    · intro h b hb p hp
      by_cases hba : b = a
      · exact hba ▸ BrokerArea.covers_of_root hroot p
      · have := h b ((H.mem_view ha).2 ⟨hb, hba⟩)
        rw [hp] at this
        exact this
    · intro h b hb
      cases l with
      | none => rfl
      | some p => exact h b ((H.mem_view ha).1 hb).1 p rfl
  | false =>
    simp only [Atlas.isResponsibleFor, Serves, Atlas.view, hroot, Option.any_eq_true, if_false,
      Bool.false_eq_true]
    rfl

/-- A broker that covers a location is responsible for it. -/
theorem serves_of_covers {p : Location} (h : a.covers p = true) : Serves areas a (some p) := by
  have hroot := BrokerArea.regular_of_covers h
  rw [Serves, hroot]
  exact ⟨p, rfl, BrokerArea.covers_of_regular hroot p ▸ h⟩

/-- Who is responsible but not the root covers the location. -/
theorem covers_of_serves (h : Serves areas a l) (hroot : a.root = false) :
    ∃ p ∈ l, a.covers p = true := by
  rw [Serves, hroot] at h
  obtain ⟨p, hp, hin⟩ := h
  exact ⟨p, hp, BrokerArea.covers_of_regular hroot p ▸ hin⟩

/-- The root is responsible for what no area covers. -/
theorem serves_root_iff (hroot : a.root = true) :
    Serves areas a l ↔ ∀ b ∈ areas, ∀ p ∈ l, b.covers p = false := by
  rw [Serves, if_pos hroot]

/-! ## The redirect -/

/-- The area that a broker redirects to. -/
theorem peerFor?_view_eq_some {t : BrokerInfo} (H : Chartable areas) (ha : a ∈ areas)
    (h : (Atlas.view areas a).peerFor? l = some t) :
    ∃ b ∈ areas, b ≠ a ∧ b.broker = t ∧
      ((∃ p ∈ l, b.covers p) ∨ b.root ∧ ∀ c ∈ areas, c ≠ a → ∀ p ∈ l, c.covers p = false) := by
  simp only [Atlas.peerFor?, Option.map_eq_some_iff, Option.or_eq_some_iff,
    Option.bind_eq_some_iff, Option.bind_eq_none_iff, List.find?_eq_none] at h
  obtain ⟨b, ⟨p, hp, hb⟩ | ⟨hnone, hb⟩, rfl⟩ := h
  · have hmem := (H.mem_view ha).1 (List.mem_of_find?_eq_some hb)
    exact ⟨b, hmem.1, hmem.2, rfl, .inl ⟨p, hp, by simpa using List.find?_some hb⟩⟩
  · have hmem := (H.mem_view ha).1 (List.mem_of_find?_eq_some hb)
    refine ⟨b, hmem.1, hmem.2, rfl, .inr ⟨by simpa using List.find?_some hb, ?_⟩⟩
    intro c hc hca p hp
    simpa using hnone p hp c ((H.mem_view ha).2 ⟨hc, hca⟩)

theorem peerFor?_view_eq_none (H : Chartable areas) (ha : a ∈ areas) :
    (Atlas.view areas a).peerFor? l = none ↔
      ∀ b ∈ areas, b ≠ a → b.root = false ∧ ∀ p ∈ l, b.covers p = false := by
  simp only [Atlas.peerFor?, Option.map_eq_none_iff, Option.or_eq_none_iff,
    Option.bind_eq_none_iff, List.find?_eq_none, H.mem_view ha, Bool.not_eq_true, and_imp]
  exact ⟨fun ⟨h1, h2⟩ b hb hba => ⟨h2 b hb hba, fun p hp => h1 p hp b hb hba⟩,
    fun h => ⟨fun p hp b hb hba => (h b hb hba).2 p hp, fun b hb hba => (h b hb hba).1⟩⟩

/-- The broker that is named is responsible. -/
theorem serves_of_peerFor? {t : BrokerInfo} (H : Chartable areas) (ha : a ∈ areas)
    (hnot : ¬ Serves areas a l) (h : (Atlas.view areas a).peerFor? l = some t) :
    ∃ b ∈ areas, b.broker = t ∧ Serves areas b l := by
  obtain ⟨b, hb, hba, hbt, ⟨p, hp, hcov⟩ | ⟨hroot, hnone⟩⟩ := H.peerFor?_view_eq_some ha h
  · obtain rfl : l = some p := hp
    exact ⟨b, hb, hbt, serves_of_covers hcov⟩
  · refine ⟨b, hb, hbt, (serves_root_iff hroot).2 fun c hc p hp => ?_⟩
    by_cases hca : c = a
    · -- the broker that redirects does not cover the location itself
      subst hca
      by_contra hcov
      obtain rfl : l = some p := hp
      exact hnot (serves_of_covers (by simpa using hcov))
    · exact hnone c hc hca p hp

/-- No broker is named exactly if none is responsible. -/
theorem peerFor?_eq_none_iff (H : Chartable areas) (ha : a ∈ areas) (hnot : ¬ Serves areas a l) :
    (Atlas.view areas a).peerFor? l = none ↔ ∀ b ∈ areas, ¬ Serves areas b l := by
  rw [H.peerFor?_view_eq_none ha]
  constructor
  · intro h b hb hserves
    by_cases hba : b = a
    · exact hnot (hba ▸ hserves)
    · obtain ⟨p, hp, hcov⟩ := covers_of_serves hserves (h b hb hba).1
      exact absurd hcov (by simp [(h b hb hba).2 p hp])
  · intro h b hb hba
    have hcov (c : BrokerArea) (hc : c ∈ areas) (p : Location) (hp : p ∈ l) :
        c.covers p = false := by
      by_contra hcov
      obtain rfl : l = some p := hp
      exact h c hc (serves_of_covers (by simpa using hcov))
    refine ⟨?_, hcov b hb⟩
    by_contra hroot
    exact h b hb ((serves_root_iff (by simpa using hroot)).2 hcov)

/-! ## Only one broker -/

theorem serves_unique (H : Chartable areas)
    (hdisjoint : ∀ p, ∀ a ∈ areas, ∀ b ∈ areas, a.covers p → b.covers p → a = b)
    (ha : a ∈ areas) (hb : b ∈ areas) (hsa : Serves areas a l) (hsb : Serves areas b l) :
    a = b := by
  cases hra : a.root <;> cases hrb : b.root
  · obtain ⟨p, hp, hpa⟩ := covers_of_serves hsa hra
    obtain ⟨q, hq, hqb⟩ := covers_of_serves hsb hrb
    obtain rfl : p = q := Option.mem_unique hp hq
    exact hdisjoint p a ha b hb hpa hqb
  · obtain ⟨p, hp, hpa⟩ := covers_of_serves hsa hra
    exact absurd hpa (by simp [(serves_root_iff hrb).1 hsb a ha p hp])
  · obtain ⟨p, hp, hpb⟩ := covers_of_serves hsb hrb
    exact absurd hpb (by simp [(serves_root_iff hra).1 hsa b hb p hp])
  · exact H.eq_of_root ha hb hra hrb

theorem exists_serves (hroot : ∃ a ∈ areas, a.root = true) (l : Option Location) :
    ∃ a ∈ areas, Serves areas a l := by
  by_cases h : ∃ b ∈ areas, ∃ p ∈ l, b.covers p = true
  · obtain ⟨b, hb, p, hp, hcov⟩ := h
    obtain rfl : l = some p := hp
    exact ⟨b, hb, serves_of_covers hcov⟩
  · obtain ⟨a, ha, hra⟩ := hroot
    refine ⟨a, ha, (serves_root_iff hra).2 fun b hb p hp => ?_⟩
    by_contra hcov
    exact h ⟨b, hb, p, hp, by simpa using hcov⟩

end Chartable

/-! ## The federation -/

/-- A broker answers a registration with a redirect exactly if it is not responsible, and names the
peer that is. -/
theorem Broker.redirect_mem_connect {x : Broker} {c c' : String} {l : Option Location}
    {t : Option BrokerInfo} :
    (c', .disconnect .wrongBroker t) ∈ (x.handle c (.connect l)).2.outgoing ↔
      x.atlas.isResponsibleFor l = false ∧ c' = c ∧ t = x.atlas.peerFor? l := by
  simp only [handle, connect]
  split
  · next h =>
    split <;> simp [Dispatch.send, h]
  · next h => simp [redirect, Dispatch.send, h]

/-- Redirects land in one hop. Every broker of the list can build its atlas, and if it is not
responsible for a location (which may be missing), it names a broker that is, or none if there is
none; so an engine, in whatever state, that is named when a client registers does not redirect the
client again. If besides no location lies in two regular areas, no two brokers are responsible for
the same location, and with a root one is. -/
theorem redirect_lands_in_one_hop {areas : List BrokerArea} (H : Chartable areas) :
    (∀ a ∈ areas, Atlas.ofAreas a.broker.id areas = .ok (.view areas a)) ∧
    (∀ l, ∀ a ∈ areas, (Atlas.view areas a).isResponsibleFor l = false →
      ((Atlas.view areas a).peerFor? l = none ↔
        ∀ b ∈ areas, (Atlas.view areas b).isResponsibleFor l = false) ∧
      ∀ t, (Atlas.view areas a).peerFor? l = some t →
        ∃ b ∈ areas, b.broker = t ∧ (Atlas.view areas b).isResponsibleFor l = true) ∧
    (∀ l, ∀ a ∈ areas, ∀ x : Broker, x.atlas = .view areas a → ∀ c t,
      (c, .disconnect .wrongBroker (some t)) ∈ (x.handle c (.connect l)).2.outgoing →
      ∃ b ∈ areas, b.broker = t ∧ ∀ y : Broker, y.atlas = .view areas b → ∀ d d' o,
        (d', .disconnect .wrongBroker o) ∉ (y.handle d (.connect l)).2.outgoing) ∧
    ((∀ p, ∀ a ∈ areas, ∀ b ∈ areas, a.covers p → b.covers p → a = b) → ∀ l,
      (∀ a ∈ areas, ∀ b ∈ areas, (Atlas.view areas a).isResponsibleFor l →
        (Atlas.view areas b).isResponsibleFor l → a = b) ∧
      ((∃ a ∈ areas, a.root = true) →
        ∃! a, a ∈ areas ∧ (Atlas.view areas a).isResponsibleFor l)) := by
  have hserves {l a} (ha : a ∈ areas) :
      (Atlas.view areas a).isResponsibleFor l = false ↔ ¬ Serves areas a l := by
    rw [← H.isResponsibleFor_view ha, Bool.not_eq_true]
  have hlands {l a t} (ha : a ∈ areas) (hnot : (Atlas.view areas a).isResponsibleFor l = false)
      (ht : (Atlas.view areas a).peerFor? l = some t) :
      ∃ b ∈ areas, b.broker = t ∧ (Atlas.view areas b).isResponsibleFor l = true := by
    obtain ⟨b, hb, hbt, hsb⟩ := H.serves_of_peerFor? ha ((hserves ha).1 hnot) ht
    exact ⟨b, hb, hbt, (H.isResponsibleFor_view hb).2 hsb⟩
  refine ⟨fun a ha => H.ofAreas_eq ha,
    fun l a ha hnot => ⟨?_, fun t ht => hlands ha hnot ht⟩, ?_, ?_⟩
  · rw [H.peerFor?_eq_none_iff ha ((hserves ha).1 hnot)]
    exact forall₂_congr fun b hb => (hserves hb).symm
  · intro l a ha x hx c t hmem
    obtain ⟨hnot, -, ht⟩ := Broker.redirect_mem_connect.1 hmem
    rw [hx] at hnot ht
    obtain ⟨b, hb, hbt, hresp⟩ := hlands ha hnot ht.symm
    refine ⟨b, hb, hbt, fun y hy d d' o hmem => ?_⟩
    have := (Broker.redirect_mem_connect.1 hmem).1
    rw [hy, hresp] at this
    cases this
  · intro hdisjoint l
    have hunique {a b} (ha : a ∈ areas) (hb : b ∈ areas)
        (hra : (Atlas.view areas a).isResponsibleFor l)
        (hrb : (Atlas.view areas b).isResponsibleFor l) : a = b :=
      H.serves_unique hdisjoint ha hb ((H.isResponsibleFor_view ha).1 hra)
        ((H.isResponsibleFor_view hb).1 hrb)
    refine ⟨fun a ha b hb => hunique ha hb, fun hroot => ?_⟩
    obtain ⟨a, ha, hsa⟩ := Chartable.exists_serves hroot l
    have hra := (H.isResponsibleFor_view ha).2 hsa
    exact ⟨a, ⟨ha, hra⟩, fun b ⟨hb, hrb⟩ => hunique hb ha hrb hra⟩

/-- A city and the root around it. -/
def cityAndRoot : List BrokerArea :=
  [⟨⟨"berlin", "127.0.0.1:6001"⟩, .rectangle ⟨52, 13⟩ ⟨53, 14⟩, false⟩,
    ⟨⟨"cloud", "127.0.0.1:6000"⟩, .world, true⟩]

/-- At sea the broker of the city is not responsible and names the root, which is; and of the two
exactly one is responsible for each location. -/
theorem cityAndRoot_lands_in_one_hop :
    Chartable cityAndRoot ∧
    (Atlas.view cityAndRoot cityAndRoot[0]).isResponsibleFor (some ⟨40, -30⟩) = false ∧
    (∃ b ∈ cityAndRoot, b.broker = ⟨"cloud", "127.0.0.1:6000"⟩ ∧
      (Atlas.view cityAndRoot b).isResponsibleFor (some ⟨40, -30⟩) = true) ∧
    ∀ l, ∃! a, a ∈ cityAndRoot ∧ (Atlas.view cityAndRoot a).isResponsibleFor l := by
  have H : Chartable cityAndRoot := ⟨by decide, by decide⟩
  obtain ⟨-, hredirect, -, hunique⟩ := redirect_lands_in_one_hop H
  have hnot :
      (Atlas.view cityAndRoot cityAndRoot[0]).isResponsibleFor (some ⟨40, -30⟩) = false := by
    decide +kernel
  refine ⟨H, hnot, (hredirect _ _ (by simp [cityAndRoot]) hnot).2 _ (by decide +kernel), ?_⟩
  refine fun l => (hunique ?_ l).2 ⟨cityAndRoot[1], by simp [cityAndRoot], rfl⟩
  simp [cityAndRoot, BrokerArea.covers]

/-- The broker of the city before anybody connects to it. -/
def Broker.ofCity : Broker := start (.view cityAndRoot cityAndRoot[0]) .forwardAll

end Geocast
