import Geocast.Proofs.Session.Listening

/-! # Calls that go unanswered

A call ends without a result in one of several ways, and not all of them look for a result that was
parked meanwhile: if the broker says that nobody serves the function, or that it does not know the
client, then there is no wait for an answer. `callNoting` is the call that also notes how the broker
took what was published last; forgetting the note gives the call (`fst_callNoting`). If the last
publication was delivered, then no result of the call is left behind
(`unanswered_call_leaves_no_result`). -/

namespace Geocast

namespace Session

variable {W : Wire} {α β : Type}

/-! ## Noting the last delivery -/

/-- `solicit`, with what became of the publication made last; `last` is the one before. -/
def solicitNoting (r : CallRequest) (content : String) (ackTimeout : Nat) (t : Topic) :
    (times : Nat) → (last : Option CallDelivery) → Action W (Solicited × Option CallDelivery)
  | 0, last => return (.unacknowledged, last)
  | times + 1, _ => do
    match ← publishCall r content t with
    | .noSubscribers => return (.unacknowledged, some .noSubscribers)
    | .notConnected => return (.unknownHere, some .notConnected)
    | .delivered =>
      match ← awaitAck r.request ackTimeout with
      | .ack => return (.acknowledged, some .delivered)
      | .result m => return (.answered m, some .delivered)
      | .refused => return (.unacknowledged, some .delivered)
      | .silent => solicitNoting r content ackTimeout t times (some .delivered)

def solicitAnywhereNoting (r : CallRequest) (content : String) (ackTimeout : Nat)
    (last : Option CallDelivery) : Action W (Solicited × Option CallDelivery) := do
  match ← solicitNoting r content ackTimeout (functionTopic r.function .call)
      (max 1 r.ackAttempts) last with
  | (.unacknowledged, last) =>
    if r.cloudRetry then
      solicitNoting r content ackTimeout (functionTopic r.function .nack) 1 last
    else return (.unacknowledged, last)
  | outcome => return outcome

def attemptNoting (r : CallRequest) (content : String) (ackTimeout resultTimeout : Nat) :
    (times : Nat) → (last : Option CallDelivery) →
      Action W (Option FunctionMessage × Option CallDelivery)
  | 0, last => return (none, last)
  | times + 1, last => do
    match ← solicitAnywhereNoting r content ackTimeout last with
    | (.answered m, last) => return (some m, last)
    | (.unknownHere, last) => return (none, last)
    | (.unacknowledged, last) => attemptNoting r content ackTimeout resultTimeout times last
    | (.acknowledged, last) =>
      match ← listen .result r.request resultTimeout with
      | some m => return (some m, last)
      | none => attemptNoting r content ackTimeout resultTimeout times last

/-- `call`, with what became of the publication of the call that was made last. -/
def callNoting (r : CallRequest) : Action W (Option FunctionMessage × Option CallDelivery) := do
  let options := (← get).options
  let _ ← subscribe (functionTopic r.function .result) r.subFence
  let _ ← subscribe (functionTopic r.function .ack) r.subFence
  let content := (callMessage r (← get).id).encode
  attemptNoting r content (r.ackTimeout.getD options.ackTimeout)
    (r.resultTimeout.getD options.resultTimeout) (r.retries + 1) none

section
variable (r : CallRequest) (content : String) (ackTimeout resultTimeout : Nat) (t : Topic)

theorem fst_solicitNoting (times : Nat) (last : Option CallDelivery) :
    Prod.fst <$> solicitNoting r content ackTimeout t times last =
      (solicit r content ackTimeout t times : Action W Solicited) := by
  induction times generalizing last with
  | zero => simp [solicitNoting, solicit]
  | succ times ih =>
    simp only [solicitNoting, solicit, map_bind]
    refine bind_congr fun delivery => ?_
    cases delivery with
    | delivered =>
      simp only [map_bind]
      refine bind_congr fun answer => ?_
      cases answer with
      | silent => exact ih _
      | _ => simp
    | _ => simp

theorem fst_solicitAnywhereNoting (last : Option CallDelivery) :
    Prod.fst <$> solicitAnywhereNoting r content ackTimeout last =
      (solicitAnywhere r content ackTimeout : Action W Solicited) := by
  rw [solicitAnywhere, ← fst_solicitNoting r content ackTimeout _ _ last, bind_map_left,
    solicitAnywhereNoting, map_bind]
  refine bind_congr fun ⟨outcome, last'⟩ => ?_
  cases outcome with
  | unacknowledged =>
    dsimp only
    split
    · exact fst_solicitNoting ..
    · simp
  | _ => simp

theorem fst_attemptNoting (times : Nat) (last : Option CallDelivery) :
    Prod.fst <$> attemptNoting r content ackTimeout resultTimeout times last =
      (attempt r content ackTimeout resultTimeout times : Action W (Option FunctionMessage)) := by
  induction times generalizing last with
  | zero => simp [attemptNoting, attempt]
  | succ times ih =>
    rw [attempt, ← fst_solicitAnywhereNoting r content ackTimeout last, bind_map_left,
      attemptNoting, map_bind]
    refine bind_congr fun ⟨outcome, last'⟩ => ?_
    cases outcome with
    | acknowledged =>
      simp only [map_bind]
      refine bind_congr fun result => ?_
      cases result with
      | none => exact ih _
      | some m => simp
    | unacknowledged => exact ih _
    | _ => simp

/-- The note changes nothing. -/
theorem fst_callNoting :
    Prod.fst <$> callNoting r = (call r : Action W (Option FunctionMessage)) := by
  simp only [callNoting, call, map_bind, fst_attemptNoting]

end

/-! ## Looking for a parked result -/

/-- No result of the call is parked. -/
def Cleared (request : RequestId) (s : Session W) : Prop :=
  ∀ p ∈ s.inbox.publications, ¬ p.Answers .result request

/-- Listening that receives nothing leaves nothing new. -/
theorem ends_listen_parked (s : Session W) (action : FunctionAction) (request : RequestId) :
    Ends s (listen action request 0)
      (fun _ s' => ∀ p ∈ s'.inbox.publications, p ∈ s.inbox.publications) fun _ _ => True := by
  refine ends_listen (fun ps _ hps => hps) fun ps hps => ?_
  refine ends_receive (fun _ => trivial) (fun l m s' _ H => ?_) fun _ _ _ _ _ => trivial
  cases H with
  | spent => exact hps
  | _ h => exact absurd (Nat.sub_eq_zero_of_le (Nat.le_of_eq rfl)) h

/-- A wait for the acknowledgement that brings neither that nor a result leaves no result behind. -/
theorem awaitAck_cleared (s : Session W) (request : RequestId) (budget : Nat) :
    Ends s (awaitAck request budget)
      (fun answer s' => answer = .refused ∨ answer = .silent → Cleared request s')
      fun _ _ => True := by
  rw [awaitAck, ends_bind]
  refine ends_of_forall (fun ack s₁ => ?_) fun _ _ => trivial
  cases ack with
  | some m => simp
  | none =>
    simp only [Option.isSome_none, Bool.false_eq_true, if_false, ends_bind]
    refine (ends_listen_unanswered s₁ .result request 0).mono (fun result s₂ h => ?_)
      fun _ _ _ => trivial
    cases result with
    | some m => simp
    | none =>
      simp only [ends_bind]
      refine (ends_listen_parked s₂ .nack request).mono (fun nack s₃ hsub => ?_)
        fun _ _ _ => trivial
      have hcleared : Cleared request s₃ := fun p hp => h rfl p (hsub p hp)
      split <;> exact fun _ => hcleared

/-! ## What is left behind -/

/-- Something was published, and if it was delivered at last, no result is parked. -/
def Attended (request : RequestId) (last : Option CallDelivery) (s : Session W) : Prop :=
  ∃ d, last = some d ∧ (d = .delivered → Cleared request s)

/-- Where an attempt stands when the acknowledgement was sought: a call that was not answered was
attended to, and one that was acknowledged was published. -/
def Solicited.Attended (request : RequestId) (last : Option CallDelivery) (s : Session W) :
    Solicited → Prop
  | .answered _ => True
  | .acknowledged => last = some .delivered
  | .unacknowledged | .unknownHere => Session.Attended request last s

theorem solicitNoting_attended (r : CallRequest) (content : String) (ackTimeout : Nat) (t : Topic)
    (times : Nat) (last : Option CallDelivery) (s : Session W)
    (h : times = 0 → Attended r.request last s) :
    Ends s (solicitNoting r content ackTimeout t times last)
      (fun o s' => o.1.Attended r.request o.2 s') fun _ _ => True := by
  induction times generalizing last s with
  | zero => exact h rfl
  | succ times ih =>
    rw [solicitNoting, ends_bind]
    refine ends_of_forall (fun delivery s₁ => ?_) fun _ _ => trivial
    cases delivery with
    | noSubscribers => exact ⟨_, rfl, by simp⟩
    | notConnected => exact ⟨_, rfl, by simp⟩
    | delivered =>
      simp only [ends_bind]
      refine (awaitAck_cleared s₁ _ _).mono (fun answer s₂ hcleared => ?_) fun _ _ _ => trivial
      cases answer with
      | ack => exact rfl
      | result m => exact trivial
      | refused => exact ⟨_, rfl, fun _ => hcleared (.inl rfl)⟩
      | silent => exact ih _ s₂ fun _ => ⟨_, rfl, fun _ => hcleared (.inr rfl)⟩

theorem solicitAnywhereNoting_attended (r : CallRequest) (content : String) (ackTimeout : Nat)
    (last : Option CallDelivery) (s : Session W) :
    Ends s (solicitAnywhereNoting r content ackTimeout last)
      (fun o s' => o.1.Attended r.request o.2 s') fun _ _ => True := by
  rw [solicitAnywhereNoting, ends_bind]
  refine (solicitNoting_attended r content ackTimeout _ _ last s (by omega)).mono
    (fun o s₁ h => ?_) fun _ _ _ => trivial
  obtain ⟨outcome, last'⟩ := o
  cases outcome with
  | unacknowledged =>
    dsimp only
    split
    · exact solicitNoting_attended r content ackTimeout _ 1 last' s₁ (by simp)
    · exact h
  | _ => exact h

theorem attemptNoting_attended (r : CallRequest) (content : String)
    (ackTimeout resultTimeout times : Nat) (last : Option CallDelivery) (s : Session W)
    (h : times = 0 → Attended r.request last s) :
    Ends s (attemptNoting r content ackTimeout resultTimeout times last)
      (fun o s' => o.1 = none → Attended r.request o.2 s') fun _ _ => True := by
  induction times generalizing last s with
  | zero => exact fun _ => h rfl
  | succ times ih =>
    rw [attemptNoting, ends_bind]
    refine (solicitAnywhereNoting_attended r content ackTimeout last s).mono (fun o s₁ h => ?_)
      fun _ _ _ => trivial
    obtain ⟨outcome, last'⟩ := o
    cases outcome with
    | answered m => simp
    | unknownHere => exact fun _ => h
    | unacknowledged => exact ih last' s₁ fun _ => h
    | acknowledged =>
      simp only [ends_bind]
      refine (ends_listen_unanswered s₁ .result r.request resultTimeout).mono
        (fun result s₂ hcleared => ?_) fun _ _ _ => trivial
      cases result with
      | some m => simp
      | none => exact ih last' s₂ fun _ => ⟨.delivered, h, fun _ => hcleared rfl⟩

theorem callNoting_attended (r : CallRequest) (s : Session W) :
    Ends s (callNoting r) (fun o s' => o.1 = none → Attended r.request o.2 s')
      fun _ _ => True := by
  simp only [callNoting, ends_bind, ends_get]
  refine ends_of_forall (fun _ s₁ => ?_) fun _ _ => trivial
  refine ends_of_forall (fun _ s₂ => ?_) fun _ _ => trivial
  exact attemptNoting_attended r _ _ _ _ none s₂ (by simp)

/-- A call that was waited for to the end leaves no result behind. On every wire, in every state and
for every request: if a call ends without a result, then it was published, and if the broker took
the last publication of the call for delivered, and said neither that there are no subscribers nor
that it does not know the client, then no result of the call is parked. -/
theorem unanswered_call_leaves_no_result {r : CallRequest} {s s' : Session W}
    (h : exec (call r) s = (.ok none, s')) :
    ∃ d, exec (callNoting r) s = (.ok (none, some d), s') ∧
      (d = .delivered → ∀ p ∈ s'.inbox.publications, ¬ p.Answers .result r.request) := by
  rw [← fst_callNoting] at h
  obtain ⟨⟨m, last⟩, hrun, rfl⟩ := exists_of_exec_map h
  obtain ⟨d, rfl, hcleared⟩ := (callNoting_attended r s).ok hrun rfl
  exact ⟨d, hrun, hcleared⟩

end Session

/-- A session that has connected. The broker grants two subscriptions, and then sends these items
upon each payload that it is sent. -/
def granted (answers : List (List (Nat × Script.Item))) : Session Script.wire :=
  (Session.start "c" none ⟨100, 100, 100, 3⟩ (Script.start [] (Table.insert ∅ "a:1"
    (.deliver [(0, .payload (.connAck .success))] ::
      .deliver [(0, .payload (.subAck .grantedQoS0))] ::
      .deliver [(0, .payload (.subAck .grantedQoS0))] :: answers.map .deliver)) 0)).after
    [.connect "a:1"]

/-- The first call of the client "c". -/
def firstCall (retries : Nat) : CallRequest :=
  { CallRequest.plain "f" "" ⟨1, "c", ""⟩ .undefined with retries := retries }

/-- A session that receives the acknowledgement of its call, a plain publication, and the result of
another call. -/
def acknowledged : Session Script.wire :=
  granted [[(0, .payload (.pubAck .success)), (0, .payload (.publish (.ofCall .ack 1))),
    (0, .payload (.publish ⟨⟨"t"⟩, .undefined, "x"⟩)),
    (0, .payload (.publish (.ofCall .result 2)))]]

/-- The call ends without a result, and the plain publication is left. -/
theorem acknowledged_leaves_no_result :
    ∃ s', Session.exec (Session.call (firstCall 0)) acknowledged = (.ok none, s') ∧
      Session.exec (Session.callNoting (firstCall 0)) acknowledged =
        (.ok (none, some .delivered), s') ∧
      (∀ p ∈ s'.inbox.publications, ¬ p.Answers .result (firstCall 0).request) ∧
      s'.inbox.publications.map (·.content) = ["x"] := by
  have h := Session.exec_of_isNone (x := Session.call (firstCall 0)) (s := acknowledged)
    (by decide +kernel)
  have hlast : (Session.exec (Session.callNoting (firstCall 0)) acknowledged).1.toOption.map
      Prod.snd = some (some .delivered) := by decide +kernel
  obtain ⟨d, hnoting, hcleared⟩ := Session.unanswered_call_leaves_no_result h
  rw [hnoting] at hlast
  cases hlast
  exact ⟨_, h, hnoting, hcleared rfl, by decide +kernel⟩

/-- A session that receives the result of its call when it waits for the broker to take the second
attempt. -/
def overtaken (reason : ReasonCode) : Session Script.wire :=
  granted [[(0, .payload (.pubAck .success)), (150, .payload (.publish (.ofCall .result 1)))],
    [(0, .payload (.pubAck reason))]]

/-- If there are no subscribers for the second attempt, or the broker does not know the client, then
the call ends without a result, although the result came in: it is left behind. -/
theorem result_left_behind :
    (∃ s', Session.exec (Session.call (firstCall 1)) (overtaken .noMatchingSubscribers) =
        (.ok none, s') ∧
      ∃ p ∈ s'.inbox.publications, p.Answers .result (firstCall 1).request) ∧
    ∃ s', Session.exec (Session.call (firstCall 1)) (overtaken .notConnectedOrNoLocation) =
        (.ok none, s') ∧
      ∃ p ∈ s'.inbox.publications, p.Answers .result (firstCall 1).request := by
  constructor
  · exact ⟨_, Session.exec_of_isNone (by decide +kernel), by decide +kernel⟩
  · exact ⟨_, Session.exec_of_isNone (by decide +kernel), by decide +kernel⟩

end Geocast
