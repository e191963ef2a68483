import Geocast.Proofs.Session.Grants
import Geocast.Proofs.Session.Unlinked

/-! # Calls keep what is tracked

A handoff leaves all subscriptions behind, and a call that follows a redirect subscribes to them
anew, one after the other, from what it noted before (`publishFollowing_tracks`). So a call that
returns leaves the session with what it tracked, and with the topics of its answers besides; and all
of it was granted on the channel that is then in use (`call_keeps_tracked`). -/

namespace Geocast

/-- The topics that a call is answered on. -/
def CallRequest.answerTopics (r : CallRequest) : List Topic :=
  [functionTopic r.function .result, functionTopic r.function .ack]

namespace Session

variable {W : Wire} {f : Topic → Option Geofence}

/-- The session has a channel, and what it tracks is given by `f`. -/
def Tracks (f : Topic → Option Geofence) (s : Session W) : Prop :=
  s.isConnected ∧ ∀ t, s.subscriptions.get? t = f t

theorem Tracks.steady {s s' : Session W} (H : Tracks f s) (h : Steady s s') : Tracks f s' := by
  refine ⟨h.isConnected H.1, fun t => ?_⟩
  rw [h.subscriptions]
  exact H.2 t

/-- A topic that was not tracked is afterwards, and nothing else changes. -/
theorem subscribe_tracks (t : Topic) (g : Geofence) {s : Session W} (hs : Tracks f s) :
    Ends s (subscribe t g)
      (fun _ s' => Tracks (fun t' => (f t').or (if t = t' then some g else none)) s')
      fun _ _ => True := by
  obtain ⟨hlink, hf⟩ := hs
  refine ends_subscribe (fun ht => ⟨hlink, fun t' => ?_⟩) fun ht =>
    (ask_draws s _).mono (fun p s' h =>
      ⟨fun _ => ⟨h.1.isConnected hlink, fun t' => ?_⟩, fun _ => trivial⟩) fun _ _ _ => trivial
  · dsimp only
    rw [hf]
    split
    · next heq =>
      obtain ⟨g', hg'⟩ := Option.isSome_iff_exists.1 ht
      rw [← heq, ← hf, hg', Option.some_or]
    · rw [Option.or_none]
  · dsimp only
    rw [Table.get?_insert, h.1.subscriptions, hf]
    split
    · next heq =>
      have hnone : f t' = none := by
        rw [← hf, ← heq]
        exact Option.not_isSome_iff_eq_none.1 ht
      rw [hnone, Option.none_or]
    · rw [Option.or_none]

theorem subscribeAll_tracks (l : List (Topic × Geofence)) {s : Session W} (hs : Tracks f s) :
    Ends s (subscribeAll l)
      (fun _ s' => Tracks (fun t => (f t).or ((l.find? fun e => e.1 = t).map Prod.snd)) s')
      fun _ _ => True := by
  induction l generalizing f s with
  | nil => exact ⟨hs.1, fun t => (hs.2 t).trans (Option.or_none).symm⟩
  | cons e l ih =>
    simp only [subscribeAll, ends_bind]
    refine (subscribe_tracks e.1 e.2 hs).mono (fun _ s₁ h₁ => ?_) fun _ _ _ => trivial
    refine (ih h₁).mono (fun _ s₂ h₂ => ⟨h₂.1, fun t => (h₂.2 t).trans ?_⟩) fun _ _ _ => trivial
    dsimp only
    rw [Option.or_assoc, List.find?_cons]
    by_cases heq : e.1 = t <;> simp [heq]

theorem publish_steady (t : Topic) (g : Geofence) (content : String) (s : Session W) :
    Ends s (publish t g content) (fun _ s' => Steady s s') fun _ _ => True := by
  rw [publish_eq, ends_bind]
  refine (ask_draws s _).mono (fun p s' h => ?_) fun _ _ _ => trivial
  cases p with
  | pubAck reason => exact h.1
  | disconnect reason target =>
    cases reason with
    | wrongBroker => exact h.1
    | _ => exact trivial
  | _ => exact trivial

theorem followRedirects_tracks (target : BrokerInfo) (s : Session W) :
    Ends s (followRedirects target) (fun _ s' => Tracks (fun _ => none) s') fun _ _ => True := by
  refine ((followRedirects_joins target s).and (followRedirects_untracked s target)).mono
    (fun _ s' h => ?_) fun _ _ _ => trivial
  obtain ⟨⟨l, hl, -⟩, hcleared⟩ := h
  exact ⟨Option.isSome_iff_exists.2 ⟨l, hl.link⟩, fun t => hcleared ▸ Table.get?_empty t⟩

/-- After a handoff nothing is tracked any more, so what is subscribed to anew is what was tracked.
-/
theorem publishFollowing_tracks (limit : Nat) (t : Topic) (g : Geofence) (content : String)
    (times : Nat) : Keeps (W := W) (Tracks f) (fun _ _ => True)
      (publishFollowing limit t g content times) := by
  induction times with
  | zero => exact .throw fun _ _ => trivial
  | succ times ih =>
    intro s hs
    simp only [publishFollowing, ends_bind]
    refine (publish_steady t g content s).mono (fun answer s₁ h₁ => ?_) fun _ _ _ => trivial
    have hs₁ := hs.steady h₁
    split
    · exact hs₁
    · next target =>
      simp only [ends_bind, ends_get]
      refine (followRedirects_tracks target s₁).mono (fun _ s₂ h₂ => ?_) fun _ _ _ => trivial
      refine (subscribeAll_tracks _ h₂).mono (fun _ s₃ h₃ => ?_) fun _ _ _ => trivial
      exact ih s₃ ⟨h₃.1, fun t => (h₃.2 t).trans (Option.none_or.trans (hs₁.2 t))⟩
    · exact trivial

/-- A call that returns leaves the session with what it tracked and the topics of its answers. -/
theorem call_tracks (r : CallRequest) (s : Session W) : Ends s (call r)
    (fun _ => Tracks fun t => (s.subscriptions.get? t).or
      (if t ∈ r.answerTopics then some r.subFence else none)) fun _ _ => True := by
  cases hl : s.link with
  | none =>
    refine ends_iff.2 ⟨fun m s' h => ?_, fun _ _ _ => trivial⟩
    cases h.symm.trans (exec_call_unlinked hl r)
  | some l =>
    have hs : Tracks s.subscriptions.get? s :=
      ⟨Option.isSome_iff_exists.2 ⟨l, hl⟩, fun _ => rfl⟩
    simp only [call, ends_bind, ends_get]
    refine (subscribe_tracks _ _ hs).mono (fun _ s₁ h₁ => ?_) fun _ _ _ => trivial
    refine (subscribe_tracks _ _ h₁).mono (fun _ s₂ h₂ => ?_) fun _ _ _ => trivial
    refine Keeps.attempt (fun t _ => .publishCall fun _ _ => publishFollowing_tracks _ _ _ _ _)
      (fun action budget s₃ h₃ => ?_) _ _ _ s₂ ⟨h₂.1, fun t => (h₂.2 t).trans ?_⟩
    · obtain ⟨n, hn⟩ := s₃.exists_uses
      exact (listen_draws hn action r.request budget).mono (fun _ _ h => h₃.steady h.toSteady)
        fun _ _ _ => trivial
    · dsimp only
      simp only [Option.or_assoc, CallRequest.answerTopics, List.mem_cons, List.not_mem_nil,
        or_false, @eq_comm _ t]
      by_cases hresult : functionTopic r.function .result = t <;>
        by_cases hack : functionTopic r.function .ack = t <;> simp [hresult, hack]

/-- Calls lose no subscription and claim none. On every wire and however often it is redirected, a
call that returns leaves the session with what it tracked before it and, where these were not
tracked, the topics of its answers within the fence of the request. Whatever session `o` the run
began with, a call at once included, all of this was granted on the channel that is in use at the
end, if that was opened since; if it is still the one of `o`, then all but what `o` tracked. -/
theorem call_keeps_tracked {o s' : Session W} {ops : List Operation} {r : CallRequest}
    {m : Option FunctionMessage} (h : exec (call r) (o.after ops) = (.ok m, s')) :
    (∀ t, s'.subscriptions.get? t = ((o.after ops).subscriptions.get? t).or
      (if t ∈ r.answerTopics then some r.subFence else none)) ∧
    ∃ l events, s'.link = some l ∧ s'.history = events ++ o.history ∧
      ((o.link = some l ∧ Granted l events o.subscriptions o.inbox.grants s') ∨
        (∃ id, .opened l.number l.address id ∈ events) ∧ Granted l events ∅ 0 s') := by
  obtain ⟨hlink, htracked⟩ := (call_tracks r (o.after ops)).ok h
  obtain ⟨l, hl⟩ := Option.isSome_iff_exists.1 hlink
  have hgranted : GrantedSince o s' :=
    (granted_keeps.operation (.call r) (o.after ops) (granted_after o ops)).ok h
  obtain ⟨events, hhistory, hgranted⟩ := hgranted
  exact ⟨htracked, l, events, hl, hhistory, hgranted l hl⟩

/-- A session whose broker "A" grants three subscriptions and sends the fourth request on to the
broker "B", which grants three and then has nobody to publish to. -/
def rerouted : Session Script.wire :=
  let granted : Script.Batch := .deliver [(0, .payload (.subAck .grantedQoS0))]
  start "c" none ⟨100, 100, 100, 3⟩ (Script.start [] (Table.insert (Table.insert ∅
    "a:1" [.deliver [(0, .payload (.connAck .success))], granted, granted, granted,
      .deliver [(0, .payload (.disconnect .wrongBroker (some ⟨"B", "b:1"⟩)))]])
    "b:1" [.deliver [(0, .payload (.connAck .success))], granted, granted, granted,
      .deliver [(0, .payload (.pubAck .noMatchingSubscribers))]]) 0)

/-- The call of a function, while one other topic is tracked, ends at "B", which granted all three
topics. -/
theorem rerouted_keeps_tracked :
    let s := rerouted.after [.connect "a:1", .request (.subscribe ⟨"x"⟩ .undefined)]
    let r := CallRequest.plain "f" "" ⟨1, "c", ""⟩ .undefined
    ∃ s', exec (call r) s = (.ok none, s') ∧
      (∀ t, s'.subscriptions.get? t = (s.subscriptions.get? t).or
        (if t ∈ r.answerTopics then some r.subFence else none)) ∧
      (∃ l, s'.link = some l ∧ Granted l s'.history ∅ 0 s') ∧
      s'.address = "b:1" ∧ s'.subscriptions.size = 3 ∧ grantsOn 0 s'.history = 3 ∧
      grantsOn 1 s'.history = 3 := by
  intro s r
  have h : exec (call r) s = (.ok none, _) := exec_of_isNone (by decide +kernel)
  obtain ⟨htracked, l, events, hl, hhistory, hgranted⟩ := call_keeps_tracked h
  have hevents : (exec (call r) s).2.history = events := hhistory.trans (List.append_nil events)
  rcases hgranted with ⟨hnone, -⟩ | ⟨-, hgranted⟩
  · cases hnone
  · exact ⟨_, h, htracked, ⟨l, hl, hevents ▸ hgranted⟩, by decide +kernel⟩

end Session

end Geocast
