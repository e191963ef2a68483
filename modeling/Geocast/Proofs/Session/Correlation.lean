import Geocast.Proofs.Session.Settled

/-! # Which reply a request reads

A request reads the first reply of a kind that it accepts, and those to earlier requests come
first. So it reads a reply to itself if and only if none of such a kind is due. A request that timed
out leaves its reply due; while nothing times out, every request reads the reply to itself. -/

namespace Geocast

open Script Session

variable {s s' : Session Script.wire}

/-- Answered by `a`, a request read the reply at place `i` among those that were due and, behind
them, those to itself. -/
structure Request.ReadsAt (r : Request) (i : Nat) (a : r.Answer) (s s' : Session Script.wire) :
    Prop where
  first : (s.due ++ s.ownReplies).findIdx? (·.kind ∈ r.replies) = some i
  meaning : ∃ p, (s.due ++ s.ownReplies)[i]? = some p ∧ r.meaning p = some a
  rest : ¬ r.Moves a → s'.link = s.link ∧ s'.due = (s.due ++ s.ownReplies).eraseIdx i

theorem le_findIdx?_append_iff {α : Type} {xs ys : List α} {p : α → Bool} {i : Nat}
    (h : (xs ++ ys).findIdx? p = some i) : xs.length ≤ i ↔ ∀ x ∈ xs, p x = false := by
  rw [List.findIdx?_append] at h
  rw [← List.findIdx?_eq_none_iff]
  cases hx : xs.findIdx? p with
  | none =>
    obtain ⟨j, -, rfl⟩ : ∃ j, ys.findIdx? p = some j ∧ j + xs.length = i := by simpa [hx] using h
    simp
  | some j =>
    obtain rfl : j = i := by simpa [hx] using h
    have := (List.findIdx?_eq_some_iff_findIdx_eq.1 hx).1
    simp [this]

theorem exists_findIdx?_of_find? {α : Type} {xs : List α} {p : α → Bool} {x : α}
    (h : xs.find? p = some x) : ∃ i, xs.findIdx? p = some i ∧ xs[i]? = some x := by
  obtain ⟨hx, i, hi, rfl, hlt⟩ := List.find?_eq_some_iff_getElem.1 h
  refine ⟨i, List.findIdx?_eq_some_iff_getElem.2 ⟨hi, hx, fun j hj => ?_⟩,
    List.getElem?_eq_getElem hi⟩
  simpa using hlt j hj

/-- A request that is sent and answered read the first reply that it accepts. -/
theorem readsAt_of_ok {r : Request} (hr : ¬ r.Tracked s) {a : r.Answer}
    (h : exec r.perform s = (.ok a, s')) : ∃ i, r.ReadsAt i a s s' := by
  have H : Ends s r.perform (fun a s' => ∃ i, r.ReadsAt i a s s') fun _ _ => True := by
    refine ends_perform hr ?_
    simp only [Request.ask, ends_bind, ends_get]
    refine ends_ask r.publish_notMem_replies (fun p s₁ hp => ?_) fun _ _ _ => trivial
    obtain ⟨i, hi, hget⟩ := exists_findIdx?_of_find? hp.first
    refine (conclude_means r p s₁).mono (fun a s₂ h => ?_) fun _ _ _ => trivial
    obtain ⟨hm, hs⟩ := h
    refine ⟨i, hi, ⟨p, hget, hm⟩, fun hmoves => ?_⟩
    obtain ⟨hl, hin, hw⟩ := hs hmoves
    refine ⟨hl.trans hp.stays.link, ?_⟩
    rw [due_congr hl hin hw, hp.rest, List.eraseP_eq_eraseIdx, hi]
  exact H.ok h

/-- A request that timed out leaves the reply to itself due. -/
theorem due_of_timeout {r : Request} {awaited : String}
    (h : exec r.perform s = (.error (.timeout awaited), s')) :
    s'.link = s.link ∧ s'.due = s.due ++ s.ownReplies := by
  have H : Ends s r.perform (fun _ _ => True) fun e s' =>
      (∃ awaited, e = .timeout awaited) → s'.link = s.link ∧ s'.due = s.due ++ s.ownReplies := by
    by_cases hr : r.Tracked s
    · exact ends_perform_of_tracked hr fun _ => trivial
    · refine ends_perform hr ?_
      simp only [Request.ask, ends_bind, ends_get]
      refine ends_ask r.publish_notMem_replies (fun p s₁ _ => ?_) ?_
      · refine (conclude_means r p s₁).mono (fun _ _ _ => trivial) ?_
        rintro e s₂ he ⟨awaited, rfl⟩
        exact absurd rfl (he awaited)
      · rintro e s₁ ⟨hs, ⟨he, -⟩ | ⟨hd, -⟩⟩ ⟨awaited, rfl⟩
        · exact absurd rfl (he awaited)
        · exact ⟨hs.link, hd⟩
  exact H.error h ⟨awaited, rfl⟩

/-- While nothing times out, the reply to a request is the only one that it finds. -/
theorem readsAt_of_settled {r : Request} (hs : Settled s) (hr : ¬ r.Tracked s) {a : r.Answer}
    (h : exec r.perform s = (.ok a, s')) : ∃ p, s.ownReplies = [p] ∧ r.ReadsAt 0 a s s' := by
  obtain ⟨i, H⟩ := readsAt_of_ok hr h
  obtain ⟨hi, -⟩ := List.findIdx?_eq_some_iff_getElem.1 H.first
  rw [hs.due, List.nil_append] at hi
  have hlen := hs.ownReplies
  obtain rfl : i = 0 := by omega
  match hown : s.ownReplies with
  | [] => simp [hown] at hi
  | [p] => exact ⟨p, rfl, H⟩
  | _ :: _ :: _ => simp [hown] at hlen

/-- A request that is sent and answered reads the first reply that it accepts, of those to earlier
requests and then of those to itself. That is a reply to itself if and only if no earlier one of
such a kind is due. A request that timed out leaves the reply to itself due. After a run on an
orderly wire in which nothing timed out, a request reads the one reply to itself. -/
theorem request_reads_first_due (r : Request) :
    (∀ (s s' : Session Script.wire) (a : r.Answer), ¬ r.Tracked s →
      exec r.perform s = (.ok a, s') → ∃ i, r.ReadsAt i a s s' ∧
        (s.due.length ≤ i ↔ ∀ q ∈ s.due, q.kind ∉ r.replies)) ∧
    (∀ (s s' : Session Script.wire) (awaited : String),
      exec r.perform s = (.error (.timeout awaited), s') →
        s'.link = s.link ∧ s'.due = s.due ++ s.ownReplies) ∧
    ∀ (w : State) (id : String) (location : Option Location) (options : SessionOptions)
      (ops : List Operation) (s s' : Session Script.wire) (a : r.Answer), w.Orderly →
      s = (start (W := wire) id location options w).after ops →
      (∀ x ∈ (start (W := wire) id location options w).outcomes ops, InTime x) → ¬ r.Tracked s →
      exec r.perform s = (.ok a, s') → ∃ p, s.ownReplies = [p] ∧ r.ReadsAt 0 a s s' := by
  refine ⟨fun s s' a hr h => ?_, fun s s' awaited h => due_of_timeout h, ?_⟩
  · obtain ⟨i, H⟩ := readsAt_of_ok hr h
    exact ⟨i, H, by simpa using le_findIdx?_append_iff H.first⟩
  · rintro w id location options ops _ s' a hw rfl hops hr h
    exact readsAt_of_settled (settled_after (settled_start hw id location options) hops) hr h

/-! ## A late reply -/

/-- A wire to a broker that grants the first subscription after a delay, and refuses the second. -/
def grantThenRefuse (delay : Nat) : State :=
  Script.start [] (Table.insert ∅ "a"
    [.deliver [(0, .payload (.connAck .success))],
      .deliver [(delay, .payload (.subAck .grantedQoS0))],
      .deliver [(0, .payload (.subAck .notConnectedOrNoLocation))]]) 0

theorem orderly_grantThenRefuse (delay : Nat) : (grantThenRefuse delay).Orderly :=
  orderly_start (.insert (.empty _ _ _) (by simp [Batch.Single, Item.reply?]))

/-- A session that waits for 100 milliseconds, and its broker. -/
def impatient (delay : Nat) : Session wire :=
  start "c" none ⟨100, 100, 100, 3⟩ (grantThenRefuse delay)

/-- A grant that comes in time is read by the subscription that it is for. -/
theorem granted_by_own_reply :
    let s := (impatient 10).after [.connect "a"]
    ∃ s' p, exec (Request.subscribe ⟨"x"⟩ .undefined).perform s = (.ok .granted, s') ∧
      s.ownReplies = [p] ∧ (Request.subscribe ⟨"x"⟩ .undefined).ReadsAt 0 .granted s s' := by
  intro s
  have h : exec (Request.subscribe ⟨"x"⟩ .undefined).perform s = (.ok .granted, _) :=
    exec_of_toOption (by decide +kernel)
  have htracked : ¬ (Request.subscribe ⟨"x"⟩ .undefined).Tracked s := by
    show ¬ Table.contains _ _
    decide +kernel
  have hconnect : (exec (Operation.connect "a").perform (impatient 10)).1.toOption = some () := by
    decide +kernel
  have hintime : ∀ x ∈ (impatient 10).outcomes [.connect "a"], InTime x := by
    rintro x (- | ⟨_, ⟨⟩⟩) awaited hawaited
    rw [exec_of_toOption hconnect] at hawaited
    exact nomatch hawaited
  obtain ⟨p, hp, hread⟩ := (request_reads_first_due _).2.2 _ _ _ _ _ _ _ _
    (orderly_grantThenRefuse 10) rfl hintime htracked h
  exact ⟨_, p, h, hp, hread⟩

/-- A grant that comes after its subscription timed out is read by the next subscription, which the
broker refused. Each payload that is sent has one reply, in the order of sending. -/
theorem late_grant_is_read :
    let s := (impatient 150).after [.connect "a", .request (.subscribe ⟨"x"⟩ .undefined)]
    (grantThenRefuse 150).Promises
        (fun b => ∃ items, b = .deliver items ∧ (items.filterMap (·.2.reply?)).length = 1) ∧
      (exec (Request.subscribe ⟨"y"⟩ .undefined).perform s).1.toOption = some .granted ∧
      s.ownReplies.map (Request.meaning (.subscribe ⟨"y"⟩ .undefined)) = [none] :=
  ⟨.insert (.empty _ _ _) (by simp [Item.reply?]), by decide +kernel⟩

end Geocast
