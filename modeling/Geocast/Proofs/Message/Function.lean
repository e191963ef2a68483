import Geocast.Message.Function
import Geocast.Proofs.Message.RoundTrip

/-! # Function messages read back

The text of a function message is the content of a publication. In the text of the frame that
carries it, it is a string, so its quotes and backslashes are escaped a second time. Both layers
are taken off again, and what is left is the message as it was (`FunctionMessage.nested_roundTrip`).
Besides doubles a message holds the number of its request, which is written exactly and is read as
long as it fits into 64 bits. -/

namespace Geocast

open Json (ReadsBack)

/-! ## Numbers of 64 bits -/

theorem Digit.le_foldl (ds : List Digit) (s : Nat) :
    s ≤ ds.foldl (fun (n : Nat) (d : Digit) => 10 * n + d) s := by
  induction ds generalizing s with
  | nil => exact Nat.le_refl s
  | cons d ds ih =>
    calc s ≤ 10 * s + d := by omega
      _ ≤ _ := ih (10 * s + d)

namespace Numeral

/-- Digits of a number that fits are all gathered. -/
theorem gather_eq {ds : List Digit} {s : Nat}
    (h : ds.foldl (fun (n : Nat) (d : Digit) => 10 * n + d) s < wordBound) :
    gather s ds = (ds.foldl (fun (n : Nat) (d : Digit) => 10 * n + d) s, []) := by
  induction ds generalizing s with
  | nil => rfl
  | cons d ds ih =>
    have hfit : 10 * s + d < wordBound := (Digit.le_foldl ds _).trans_lt h
    rw [gather, if_pos hfit]
    exact ih h

/-- A number of 64 bits has a double, if not always its own. -/
theorem toFloat?_ofNat {n : Nat} (hn : n < wordBound) : (ofNat n).toFloat?.isSome := by
  have hvalue : Digit.value (Digit.ofNat n) = n := Digit.value_ofNat n
  have hgather : gather 0 (Digit.ofNat n) = (n, []) := by
    have hall := gather_eq (s := 0) (hvalue.trans_lt hn)
    rwa [← Digit.value, hvalue] at hall
  have hone : UnitBetween (-52) (-52) (powerOfTen 0).toModel.unpack := by
    decide +kernel
  have hproduct := Float.unitAtMost_mul (unitAtMost_ofNat hn) hone.atMost (by decide)
  have hfinite := isFiniteFloat_iff.2 ⟨_, hproduct.resolve_right fun ⟨h, _⟩ => absurd h (by decide)⟩
  have hinf : (Float.ofNat n * powerOfTen 0).isInf = false := by
    simpa [isFiniteFloat] using (Bool.and_eq_true_iff.1 hfinite).2
  simp [toFloat?, ofNat, hgather, gather, scaleUp, hinf]

end Numeral

theorem Json.isSound_nat {n : Nat} (hn : n < wordBound) (d : Nat) : (Json.nat n).isSound d :=
  Numeral.toFloat?_ofNat hn

theorem Json.nat?_nat {n : Nat} (hn : n < wordBound) : (Json.nat n).nat? = some n := by
  simp [nat, nat?, Numeral.toNat?, Numeral.ofNat, hn]

theorem Json.nat?_lt (v : Json) : Yields v.nat? (· < wordBound) := by
  intro n hn
  cases v with
  | number m => simpa using (Option.filter_eq_some_iff.1 hn).2
  | _ => cases hn

/-! ## Soundness -/

/-- The doubles of a message are those of the fence that its answer is to be published in. -/
def FunctionMessage.doubles (m : FunctionMessage) : List Float := m.response.fence.doubles

theorem RequestId.isSound_toJson {r : RequestId} (h : r.seq < wordBound) (d : Nat) :
    r.toJson.isSound (d + 1) := by
  simp [toJson, Json.isSound_nat h]

theorem ResponseTopic.isSound_toJson {r : ResponseTopic}
    (h : ∀ x ∈ r.fence.doubles, isFiniteFloat x → ReadsBack x) (d : Nat) :
    r.toJson.isSound (d + 4) := by
  simp [toJson, Topic.toJson, Geofence.isSound_toJson h]

namespace FunctionMessage

theorem isSound_toJson {m : FunctionMessage}
    (h : ∀ x ∈ m.doubles, isFiniteFloat x → ReadsBack x) (hseq : m.request.seq < wordBound)
    (d : Nat) : m.toJson.isSound (d + 5) := by
  simp [toJson, ResponseTopic.isSound_toJson h, RequestId.isSound_toJson hseq]

end FunctionMessage

/-! ## Reading -/

theorem FunctionAction.ofJson?_name (a : FunctionAction) : ofJson? (.text a.name) = some a := by
  cases a <;> decide

theorem AckStyle.ofJson?_name (a : AckStyle) : ofJson? (.text a.name) = some a := by
  cases a <;> decide

theorem RequestId.ofJson?_toJson {r : RequestId} (h : r.seq < wordBound) :
    ofJson? r.toJson = some r := by
  have hfields : r.toJson.fields? ["seq", "client_id", "place"] 1
      = some [some (.nat r.seq), some (.text r.clientId), some (.text r.place)] :=
    Json.fields?_ofMembers 1 rfl (by decide)
  simp [ofJson?, hfields, Json.nat?_nat h]

theorem ResponseTopic.ofJson?_toJson {r : ResponseTopic} (outer : Nat)
    (h : ∀ x ∈ r.fence.doubles, ReadsBack x) (houter : outer + 4 ≤ nestingLimit) :
    ofJson? outer r.toJson = some r := by
  have hfields : r.toJson.fields? ["topic", "fence"] 0
      = some [some r.topic.toJson, some r.fence.toJson] :=
    Json.fields?_ofMembers 0 rfl (by decide)
  obtain ⟨d, hd⟩ := Nat.exists_eq_add_of_le houter
  have hsound : r.fence.toJson.isSound (nestingLimit - (outer + 1)) := by
    rw [show nestingLimit - (outer + 1) = d + 3 by omega]
    exact Geofence.isSound_toJson (fun x hx _ => h x hx) d
  have hfence : Geofence.ofJson? (outer + 1) r.fence.toJson = some r.fence := by
    rw [Geofence.ofJson?, if_pos hsound, Geofence.ofSound?_toJson false h]
  simp [ofJson?, hfields, Topic.ofJson?_toJson, hfence]

namespace FunctionMessage

theorem ofJson?_toJson {m : FunctionMessage} (h : ∀ x ∈ m.doubles, ReadsBack x)
    (hseq : m.request.seq < wordBound) : ofJson? m.toJson = some m := by
  have hfields : m.toJson.fields? fieldNames 0 = some [some (.text m.function),
      some (.text m.action.name), some (.text m.data), some (.text m.style.name),
      some m.response.toJson, some (.text m.sender), some (.text m.receiver),
      some m.request.toJson] :=
    Json.fields?_ofMembers 0 rfl (by decide)
  simp [ofJson?, hfields, FunctionAction.ofJson?_name, AckStyle.ofJson?_name,
    ResponseTopic.ofJson?_toJson 1 h (by decide), RequestId.ofJson?_toJson hseq]

theorem decode?_encode {m : FunctionMessage} (h : ∀ x ∈ m.doubles, ReadsBack x)
    (hseq : m.request.seq < wordBound) : decode? m.encode = some m := by
  unfold decode? encode
  rw [Json.parse_render (isSound_toJson (fun x hx _ => h x hx) hseq 0)]
  exact ofJson?_toJson h hseq

end FunctionMessage

/-! ## What is read is in range -/

theorem RequestId.ofJson?_seq_lt (v : Json) : Yields (ofJson? v) (·.seq < wordBound) := by
  refine .after fun fields => ?_
  split
  · next seq client place =>
    have hread (place : String) : Yields (do
        return ⟨← Json.required Json.nat? seq, ← Json.required Json.string? client, place⟩)
        fun r : RequestId => r.seq < wordBound :=
      .bind (.required Json.nat?_lt seq) fun n hn => .after fun c => .pure hn
    split
    · exact .after hread
    · exact .after hread
  · exact .none

theorem ResponseTopic.ofJson?_finite (outer : Nat) (v : Json) :
    Yields (ofJson? outer v) fun r => ∀ x ∈ r.fence.doubles, isFiniteFloat x := by
  have hfence (w : Json) :
      Yields (Geofence.ofJson? (outer + 1) w) fun g => ∀ x ∈ g.doubles, isFiniteFloat x := by
    unfold Geofence.ofJson?
    split
    · exact Geofence.ofSound?_finite false w
    · exact .none
  refine .after fun fields => ?_
  split
  · exact .after fun topic => .bind (.required hfence _) fun fence hfence => .pure hfence
  · exact .none

namespace FunctionMessage

/-- Whatever text a message is read from, its doubles are finite and its number has 64 bits. -/
theorem decode?_inRange (text : String) : Yields (decode? text) fun m =>
    (∀ x ∈ m.doubles, isFiniteFloat x) ∧ m.request.seq < wordBound := by
  refine .after fun v => .after fun fields => ?_
  split
  · exact .after fun function => .after fun action => .after fun data => .after fun style =>
      .bind (.required (ResponseTopic.ofJson?_finite 1) _) fun response hresponse =>
        .after fun sender => .after fun receiver =>
          .bind (.required RequestId.ofJson?_seq_lt _) fun request hrequest =>
            .pure ⟨hresponse, hrequest⟩
  · exact .none

/-! ## Within a frame -/

/-- The frame that carries a message as the content of a publication. -/
def carried (m : FunctionMessage) (sender : String) (t : Topic) (g : Geofence) : Frame :=
  ⟨sender, .publish ⟨t, g, m.encode⟩⟩

/-- Reads the message that a frame carries. -/
def unpacked? (text : String) : Option FunctionMessage := do
  let f ← Frame.decode? text
  let p ← f.payload.publication?
  decode? p.content

theorem unpacked?_of_decode? {text : String} {f : Frame} (h : Frame.decode? text = some f) :
    unpacked? text = f.payload.publication?.bind fun p => decode? p.content := by
  simp [unpacked?, h]

/-- If finite doubles come back when they are written and read, then a message with a finite fence
and a number of 64 bits survives both layers of text, whoever sends it on whatever topic within
whatever finite geofence: the frame is read back, and so is the message out of its content. And a
message that was read from any text at all, in whatever spelling, comes back when it is written
anew. -/
theorem nested_roundTrip (m : FunctionMessage)
    (h : ∀ x ∈ m.doubles, isFiniteFloat x → ReadsBack x) :
    (m.request.seq < wordBound → (∀ x ∈ m.doubles, isFiniteFloat x) →
      ∀ sender t g, (∀ x ∈ g.doubles, isFiniteFloat x ∧ ReadsBack x) →
        Frame.decode? (m.carried sender t g).encode = some (m.carried sender t g) ∧
        unpacked? (m.carried sender t g).encode = some m) ∧
    ∀ text, decode? text = some m → decode? m.encode = some m := by
  have hback (hseq : m.request.seq < wordBound) (hfinite : ∀ x ∈ m.doubles, isFiniteFloat x) :
      decode? m.encode = some m :=
    decode?_encode (fun x hx => h x hx (hfinite x hx)) hseq
  refine ⟨fun hseq hfinite sender t g hg => ?_, fun text ht => ?_⟩
  · have hframe : Frame.decode? (m.carried sender t g).encode = some (m.carried sender t g) :=
      Frame.decode?_encode fun x hx => (hg x hx).2
    refine ⟨hframe, ?_⟩
    rw [unpacked?_of_decode? hframe]
    simp only [carried, Payload.publication?, Option.bind_some]
    exact hback hseq hfinite
  · obtain ⟨hfinite, hseq⟩ := decode?_inRange text m ht
    exact hback hseq hfinite

/-- A result with the largest number, and with quotes, backslashes and control characters in its
strings. -/
def report : FunctionMessage where
  function := "det\"ect\\"
  action := .result
  data := "\x7b\"n\": \"\\\\\\u0001\"\x7d\n\x01"
  style := .piggy
  response := ⟨⟨"functions/detect/result"⟩, .polygon [⟨52.5, 13.25⟩, ⟨-0.0, 1e22⟩, ⟨5e-5, 0.1⟩]⟩
  sender := "GeoFaaS-\"7\""
  receiver := ""
  request := ⟨18446744073709551615, "cl\u00e9", "\t😀"⟩

/-- An acknowledgement, and a text of it that no message is written as: an array, with a name given
as an object and without a place. -/
def receipt : FunctionMessage where
  function := "f"
  action := .ack
  data := ""
  style := .normal
  response := ⟨⟨"t"⟩, .undefined⟩
  sender := "s\""
  receiver := "c"
  request := ⟨7, "c", ""⟩

def receiptText : String :=
  "[\"f\", \x7b\"ACK\": null\x7d, \"\", \"NORMAL\", [\"t\", [\"undefined\"]], " ++
    "\"s\\u0022\", \"c\", [7, \"c\"]]"

theorem decode?_receiptText : decode? receiptText = some receipt := by
  have hparse : Json.parse receiptText = some (.array [.text "f", .ofMembers [("ACK", .null)],
      .text "", .text "NORMAL", .array [.text "t", .array [.text "undefined"]], .text "s\"",
      .text "c", .array [.nat 7, .text "c"]]) := by cbv
  unfold decode?
  rw [hparse]
  rfl

theorem report_receipt_roundTrip :
    unpacked? (report.carried "a\"b\\" ⟨"x\n"⟩ (.circle ⟨0.1, -1e-7⟩ 1.5)).encode = some report ∧
    decode? receiptText = some receipt ∧ decode? receipt.encode = some receipt := by
  have hreport : ∀ x ∈ report.doubles, isFiniteFloat x ∧ ReadsBack x := by decide +kernel
  have hfence : ∀ x ∈ (Geofence.circle ⟨0.1, -1e-7⟩ 1.5).doubles,
      isFiniteFloat x ∧ ReadsBack x := by decide +kernel
  exact ⟨((nested_roundTrip report fun x hx _ => (hreport x hx).2).1 (by decide)
      (fun x hx => (hreport x hx).1) _ _ _ hfence).2,
    decode?_receiptText, (nested_roundTrip receipt nofun).2 receiptText decode?_receiptText⟩

end FunctionMessage

end Geocast
