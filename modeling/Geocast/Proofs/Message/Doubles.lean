import Geocast.Message.Decoding
import Geocast.Proofs.Json.Record

/-! # The doubles of a frame

Only locations and radii hold doubles. What is read from a text has finite ones
(`Frame.decode?_finite`), since a numeral stands for nothing else. The readers are binds of
options, so this is shown by one rule for each way of building them. -/

namespace Geocast

def Location.doubles (a : Location) : List Float := [a.lat, a.lon]

def Geofence.doubles : Geofence → List Float
  | .circle center radius => radius :: center.doubles
  | .polygon vertices => vertices.flatMap Location.doubles
  | .undefined => []

def Publication.doubles (p : Publication) : List Float := p.geofence.doubles

def Payload.doubles : Payload → List Float
  | connect l | pingReq l | forwardPingReq _ l => l.toList.flatMap Location.doubles
  | subscribe _ g | forwardSubscribe _ _ g => g.doubles
  | publish p => p.doubles
  | forwardPublish p l => p.doubles ++ l.toList.flatMap Location.doubles
  | _ => []

def Frame.doubles (f : Frame) : List Float := f.payload.doubles

/-! ## What a reader yields -/

/-- Whatever an option holds has a property. -/
def Yields {α : Type} (o : Option α) (P : α → Prop) : Prop := ∀ a, o = some a → P a

namespace Yields

variable {α β : Type} {P : α → Prop} {Q : β → Prop}

theorem none : Yields .none P := nofun

theorem pure {a : α} (h : P a) : Yields (Pure.pure a) P := by
  rintro _ ⟨⟩
  exact h

theorem bind {o : Option α} {f : α → Option β} (ho : Yields o P) (hf : ∀ a, P a → Yields (f a) Q) :
    Yields (o >>= f) Q := by
  intro b hb
  obtain ⟨a, ha, hb⟩ := Option.bind_eq_some_iff.1 hb
  exact hf a (ho a ha) b hb

/-- A reader yields what its later steps yield, whatever the first one found. -/
theorem after {o : Option α} {f : α → Option β} (h : ∀ a, Yields (f a) Q) : Yields (o >>= f) Q :=
  bind (P := fun _ => True) (fun _ _ => trivial) fun a _ => h a

theorem map {o : Option α} {f : α → β} (h : Yields o fun a => Q (f a)) : Yields (f <$> o) Q := by
  intro b hb
  obtain ⟨a, ha, rfl⟩ := Option.map_eq_some_iff.1 hb
  exact h a ha

theorem required {f : Json → Option α} (h : ∀ v, Yields (f v) P) (o : Option Json) :
    Yields (Json.required f o) P := by
  cases o with
  | none => exact none
  | some v => exact h v

theorem nullable {f : Json → Option α} (h : ∀ v, Yields (f v) P) (o : Option Json) :
    Yields (Json.nullable f o) fun l => ∀ a ∈ l, P a := by
  intro l hl a ha
  unfold Json.nullable at hl
  split at hl
  · cases hl
    cases ha
  · cases hl
    cases ha
  · next v _ =>
    obtain ⟨b, hb, rfl⟩ := Option.map_eq_some_iff.1 hl
    cases ha
    exact h v a hb

theorem mapM {f : Json → Option α} (h : ∀ v, Yields (f v) P) (vs : List Json) :
    Yields (vs.mapM f) fun l => ∀ a ∈ l, P a := by
  induction vs with
  | nil => exact pure nofun
  | cons v vs ih =>
    rw [List.mapM_cons]
    exact bind (h v) fun a ha => bind ih fun l hl => pure (List.forall_mem_cons.2 ⟨ha, hl⟩)

end Yields

/-! ## Finite doubles -/

theorem Json.float?_finite (v : Json) : Yields v.float? fun x => isFiniteFloat x :=
  fun _ => isFiniteFloat_of_float?

theorem Location.ofJson?_finite (v : Json) :
    Yields (Location.ofJson? v) fun a => ∀ x ∈ a.doubles, isFiniteFloat x := by
  refine .after fun fields => ?_
  split
  · refine .bind (.required Json.float?_finite _) fun lat hlat =>
      .bind (.required Json.float?_finite _) fun lon hlon => .pure ?_
    simpa [Location.doubles] using ⟨hlat, hlon⟩
  · exact .none

theorem nullableLocation_finite (o : Option Json) :
    Yields (Json.nullable Location.ofJson? o) fun l =>
      ∀ x ∈ l.toList.flatMap Location.doubles, isFiniteFloat x := by
  intro l hl
  refine List.forall_mem_flatMap.2 fun a ha => ?_
  exact Yields.nullable Location.ofJson?_finite o l hl a (Option.mem_toList.1 ha)

theorem Geofence.ofSound?_finite (byPlace : Bool) (v : Json) :
    Yields (Geofence.ofSound? byPlace v) fun g => ∀ x ∈ g.doubles, isFiniteFloat x := by
  refine .after fun (tag, body) => .after fun shape => ?_
  split
  · refine .after fun fields => ?_
    split
    · exact .bind (.required Location.ofJson?_finite _) fun center hcenter =>
        .bind (.required Json.float?_finite _) fun radius hradius =>
          .pure (List.forall_mem_cons.2 ⟨hradius, hcenter⟩)
    · exact .none
  · split
    · refine .after fun fields => ?_
      split
      · exact .after fun vs => .bind (.mapM Location.ofJson?_finite vs) fun l hl =>
          .pure (List.forall_mem_flatMap.2 hl)
      · exact .none
    · split
      · split
        · exact .none
        · exact .pure nofun
      · exact .none

theorem Publication.ofSound?_finite (v : Json) :
    Yields (Publication.ofSound? v) fun p => ∀ x ∈ p.doubles, isFiniteFloat x := by
  refine .after fun fields => ?_
  split
  · exact .after fun topic =>
      .bind (.required (Geofence.ofSound?_finite true) _) fun geofence hgeofence =>
        .after fun content => .pure hgeofence
  · exact .none

theorem Payload.readLocation?_finite (body : Json) :
    Yields (Payload.readLocation? body) fun l =>
      ∀ x ∈ l.toList.flatMap Location.doubles, isFiniteFloat x := by
  refine .after fun fields => ?_
  split
  · exact nullableLocation_finite _
  · exact .none

theorem Payload.ofBody?_finite (body : Json) (kind : PayloadKind) :
    Yields (Payload.ofBody? body kind) fun p => ∀ x ∈ p.doubles, isFiniteFloat x := by
  cases kind with
  | connect | pingReq => exact .map (readLocation?_finite body)
  | connAck | pingResp | subAck | unsubAck | pubAck =>
    exact .map fun _ _ => nofun
  | publish => exact .map (Publication.ofSound?_finite body)
  | unsubscribe =>
    refine .after fun fields => ?_
    split
    · exact .after fun topic => .pure nofun
    · exact .none
  | disconnect | forwardUnsubscribe | forwardDisconnect =>
    refine .after fun fields => ?_
    split
    · exact .after fun first => .after fun second => .pure nofun
    · exact .none
  | subscribe =>
    refine .after fun fields => ?_
    split
    · exact .after fun topic =>
        .bind (.required (Geofence.ofSound?_finite true) _) fun geofence hgeofence =>
          .pure hgeofence
    · exact .none
  | forwardSubscribe =>
    refine .after fun fields => ?_
    split
    · exact .after fun client => .after fun topic =>
        .bind (.required (Geofence.ofSound?_finite true) _) fun geofence hgeofence =>
          .pure hgeofence
    · exact .none
  | forwardPublish =>
    refine .after fun fields => ?_
    split
    · exact .bind (.required Publication.ofSound?_finite _) fun p hp =>
        .bind (nullableLocation_finite _) fun l hl => .pure (List.forall_mem_append.2 ⟨hp, hl⟩)
    · exact .none
  | forwardPingReq =>
    refine .after fun fields => ?_
    split
    · exact .after fun client => .bind (nullableLocation_finite _) fun l hl => .pure hl
    · exact .none

theorem Payload.ofJson?_finite (outer : Nat) (v : Json) :
    Yields (Payload.ofJson? outer v) fun p => ∀ x ∈ p.doubles, isFiniteFloat x := by
  unfold Payload.ofJson?
  split
  · exact .after fun (tag, body) => .after fun name =>
      .after fun kind => Payload.ofBody?_finite body kind
  · exact .none

/-- Whatever text a frame is read from, its doubles are finite. -/
theorem Frame.decode?_finite (text : String) :
    Yields (Frame.decode? text) fun f => ∀ x ∈ f.doubles, isFiniteFloat x := by
  refine .after fun v => .after fun fields => ?_
  split
  · exact .after fun sender =>
      .bind (.required (Payload.ofJson?_finite 1) _) fun payload hpayload => .pure hpayload
  · exact .none

end Geocast
