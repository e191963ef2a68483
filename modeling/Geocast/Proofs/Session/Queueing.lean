import Geocast.Proofs.Session.Consistency
import Geocast.Proofs.Session.Conservation
import Mathlib.Data.List.DropRight
import Mathlib.Data.List.Find

/-! # The inbox as one queue

The inbox keeps replies and publications apart. Still it is one queue in the order of arrival, out
of which an expected reply is taken before an expected publication (`Inbox.refines_preferring`). As
long as nobody expects both at once there is no such choice, and it cannot be told from a queue out
of which the oldest expected payload is taken (`Queue.preferring_refines_oldest`). Nothing that was
parked gets lost or is handed out twice (`Queue.conserved`). -/

namespace Geocast

/-- What is done with parked payloads. -/
inductive InboxAct
  | park (p : Payload)
  | take (expected : List PayloadKind)
  | clear

/-- No more than one sort of payload is expected, publications or replies. -/
def Unmixed (expected : List PayloadKind) : Prop :=
  .publish ∈ expected → ∀ k ∈ expected, k = .publish

instance (expected : List PayloadKind) : Decidable (Unmixed expected) :=
  inferInstanceAs (Decidable (_ → _))

namespace InboxAct

def isClear : InboxAct → Bool
  | clear => true
  | _ => false

def parked? : InboxAct → Option Payload
  | park p => some p
  | _ => none

def Unmixed : InboxAct → Prop
  | take expected => Geocast.Unmixed expected
  | _ => True

instance : DecidablePred Unmixed
  | take expected => inferInstanceAs (Decidable (Geocast.Unmixed expected))
  | park _ | clear => .isTrue trivial

end InboxAct

/-! ## Stores -/

/-- A way to keep parked payloads: what an act hands out and leaves, and what can be asked about
the rest. -/
structure Store (σ : Type) where
  act : σ → InboxAct → Option Payload × σ
  size : σ → Nat
  isEmpty : σ → Bool

/-- What is seen of an act: what it handed out, and the answers about what it left. -/
structure InboxReport where
  act : InboxAct
  taken : Option Payload
  size : Nat
  isEmpty : Bool

namespace Store

variable {σ τ : Type}

def after (S : Store σ) (s : σ) (acts : List InboxAct) : σ :=
  acts.foldl (fun s a => (S.act s a).2) s

def report (S : Store σ) (s : σ) (a : InboxAct) : InboxReport :=
  ⟨a, (S.act s a).1, S.size (S.act s a).2, S.isEmpty (S.act s a).2⟩

def reports (S : Store σ) (s : σ) : List InboxAct → List InboxReport
  | [] => []
  | a :: acts => S.report s a :: S.reports (S.act s a).2 acts

theorem after_concat (S : Store σ) (s : σ) (acts : List InboxAct) (a : InboxAct) :
    S.after s (acts ++ [a]) = (S.act (S.after s acts) a).2 :=
  List.foldl_concat ..

theorem reports_concat (S : Store σ) (s : σ) (acts : List InboxAct) (a : InboxAct) :
    S.reports s (acts ++ [a]) = S.reports s acts ++ [S.report (S.after s acts) a] := by
  induction acts generalizing s with
  | nil => rfl
  | cons b acts ih => exact congrArg (_ :: ·) (ih _)

/-- The states of two stores stay related under the acts that are allowed, and what is seen of them
is the same. -/
structure Refines (S : Store σ) (T : Store τ) (allowed : InboxAct → Prop) (R : σ → τ → Prop) :
    Prop where
  taken : ∀ {s t a}, R s t → allowed a → (S.act s a).1 = (T.act t a).1
  kept : ∀ {s t a}, R s t → allowed a → R (S.act s a).2 (T.act t a).2
  size : ∀ {s t}, R s t → S.size s = T.size t
  isEmpty : ∀ {s t}, R s t → S.isEmpty s = T.isEmpty t

namespace Refines

variable {S : Store σ} {T : Store τ} {allowed : InboxAct → Prop} {R : σ → τ → Prop} {s : σ} {t : τ}
  {acts : List InboxAct}

theorem after (H : Refines S T allowed R) (h : R s t) (hacts : ∀ a ∈ acts, allowed a) :
    R (S.after s acts) (T.after t acts) := by
  induction acts generalizing s t with
  | nil => exact h
  | cons a acts ih =>
    obtain ⟨ha, hacts⟩ := List.forall_mem_cons.1 hacts
    exact ih (H.kept h ha) hacts

theorem reports (H : Refines S T allowed R) (h : R s t) (hacts : ∀ a ∈ acts, allowed a) :
    S.reports s acts = T.reports t acts := by
  induction acts generalizing s t with
  | nil => rfl
  | cons a acts ih =>
    obtain ⟨ha, hacts⟩ := List.forall_mem_cons.1 hacts
    have hkept := H.kept h ha
    simp only [Store.reports, report, H.taken h ha, H.size hkept, H.isEmpty hkept, ih hkept hacts]

end Refines

end Store

/-- The reports of the acts since the last time that everything was cleared away. -/
def sinceClear (reports : List InboxReport) : List InboxReport :=
  reports.rtakeWhile (!·.act.isClear)

/-- The inbox of a session. -/
def Inbox.store : Store Inbox where
  act i
    | .park p => (none, i.park p)
    | .take expected =>
      match i.take? expected with
      | some (p, i') => (some p, i')
      | none => (none, i)
    | .clear => (none, .empty)
  size := Inbox.size
  isEmpty := Inbox.isEmpty

/-! ## Queues -/

namespace Queue

variable {q : List Payload} {p : Payload} {expected : List PayloadKind}
  {willDo : List PayloadKind → List Payload → Payload → Bool}

/-- A queue in the order of arrival, out of which the oldest payload is taken that will do. -/
def store (willDo : List PayloadKind → List Payload → Payload → Bool) : Store (List Payload) where
  act q
    | .park p => (none, q ++ [p])
    | .take expected => (q.find? (willDo expected q), q.eraseP (willDo expected q))
    | .clear => (none, [])
  size := List.length
  isEmpty := List.isEmpty

/-- Whatever is expected will do. -/
def isExpected (expected : List PayloadKind) (_ : List Payload) (p : Payload) : Bool :=
  p.kind ∈ expected

def isExpectedReply (expected : List PayloadKind) (p : Payload) : Bool :=
  p.kind ≠ .publish ∧ p.kind ∈ expected

/-- An expected reply will do, and when there is none an expected publication. -/
def isPreferred (expected : List PayloadKind) (q : List Payload) (p : Payload) : Bool :=
  if q.any (isExpectedReply expected) then isExpectedReply expected p else p.kind ∈ expected

/-- The oldest expected reply, or else the oldest publication if these are expected. -/
def choice (expected : List PayloadKind) (q : List Payload) : Option Payload :=
  (q.find? (isExpectedReply expected)).or
    (if .publish ∈ expected then q.find? (·.kind = .publish) else none)

/-- A queue out of which the oldest expected payload is taken. -/
abbrev oldest : Store (List Payload) := store isExpected

/-- A queue out of which the oldest expected reply is taken, or else the oldest publication. -/
abbrev preferring : Store (List Payload) := store isPreferred

/-- What was parked, going by the reports, is what was taken and what is held. -/
def Balanced (reports : List InboxReport) (held : List Payload) : Prop :=
  (reports.filterMap (·.act.parked?)).Perm (reports.filterMap (·.taken) ++ held)

/-- Nothing is taken out of a queue, or the first payload like the one found. -/
theorem find?_eraseP_cases (f : Payload → Bool) (q : List Payload) :
    (q.find? f = none ∧ q.eraseP f = q) ∨ ∃ before p later, q.find? f = some p ∧ p ∉ before ∧
      q = before ++ p :: later ∧ q.eraseP f = before ++ later := by
  cases hfound : q.find? f with
  | none => exact .inl ⟨rfl, List.eraseP_of_forall_not (List.find?_eq_none.1 hfound)⟩
  | some p =>
    obtain ⟨hp, before, later, rfl, hbefore⟩ := List.find?_eq_some_iff_append.1 hfound
    refine .inr ⟨before, p, later, rfl, fun hmem => ?_, rfl, ?_⟩
    · simpa [hp] using hbefore p hmem
    · rw [List.eraseP_append_right _ fun b hb => by simpa using hbefore b hb,
        List.eraseP_cons_of_pos hp]

theorem perm_find?_eraseP (f : Payload → Bool) (q : List Payload) :
    q.Perm ((q.find? f).toList ++ q.eraseP f) := by
  rcases find?_eraseP_cases f q with ⟨hfound, hleft⟩ | ⟨before, p, later, hfound, -, rfl, hleft⟩
  · rw [hfound, hleft]
    exact .refl _
  · rw [hfound, hleft]
    exact List.perm_middle

/-- An act keeps the balance, unless it clears everything away. -/
theorem Balanced.act {reports : List InboxReport} (h : Balanced reports q) {a : InboxAct}
    (ha : a ≠ .clear) :
    Balanced (reports ++ [(store willDo).report q a]) ((store willDo).act q a).2 := by
  unfold Balanced at h ⊢
  rw [List.filterMap_append, List.filterMap_append]
  cases a with
  | park p =>
    have hmore := h.append_right [p]
    rw [List.append_assoc] at hmore
    rw [List.append_assoc]
    exact hmore
  | take expected =>
    have hparked : [(store willDo).report q (.take expected)].filterMap (·.act.parked?) = [] := rfl
    have htaken : [(store willDo).report q (.take expected)].filterMap (·.taken) =
        (q.find? (willDo expected q)).toList := by
      cases hfound : q.find? (willDo expected q) <;> simp [Store.report, store, hfound]
    rw [hparked, List.append_nil, htaken, List.append_assoc]
    exact h.trans ((perm_find?_eraseP (willDo expected q) q).append_left _)
  | clear => exact absurd rfl ha

/-- What was parked since everything was last cleared away is what was taken since then and what
is held. -/
theorem conserved (willDo : List PayloadKind → List Payload → Payload → Bool)
    (acts : List InboxAct) : Balanced (sinceClear ((store willDo).reports [] acts))
      ((store willDo).after [] acts) := by
  induction acts using List.reverseRecOn with
  | nil => exact .refl _
  | append_singleton acts a ih =>
    rw [Store.reports_concat, Store.after_concat, sinceClear, List.rtakeWhile_concat]
    cases a with
    | clear => exact .refl _
    | _ => exact ih.act nofun

/-! ## Replies first -/

theorem isExpectedReply_iff :
    isExpectedReply expected p ↔ p.kind ≠ .publish ∧ p.kind ∈ expected := by
  simp [isExpectedReply]

theorem isPreferred_of_reply (h : ∃ r ∈ q, isExpectedReply expected r) :
    isPreferred expected q = isExpectedReply expected := by
  funext p
  rw [isPreferred, if_pos (List.any_eq_true.2 h)]

/-- Without an expected reply, only publications will do. -/
theorem isPreferred_of_no_reply (h : q.find? (isExpectedReply expected) = none) (hp : p ∈ q) :
    isPreferred expected q p = decide (p.kind = .publish ∧ .publish ∈ expected) := by
  have hnone := List.find?_eq_none.1 h
  rw [isPreferred, if_neg (by simpa using hnone), decide_eq_decide]
  constructor
  · intro hexpected
    have hkind : p.kind = .publish :=
      of_not_not fun hkind => hnone p hp (isExpectedReply_iff.2 ⟨hkind, hexpected⟩)
    exact ⟨hkind, hkind ▸ hexpected⟩
  · rintro ⟨hkind, hpub⟩
    exact hkind ▸ hpub

theorem find?_isPreferred (expected : List PayloadKind) (q : List Payload) :
    q.find? (isPreferred expected q) = choice expected q := by
  unfold choice
  cases hreply : q.find? (isExpectedReply expected) with
  | some r =>
    rw [isPreferred_of_reply ⟨r, List.mem_of_find?_eq_some hreply, List.find?_some hreply⟩, hreply,
      Option.some_or]
  | none =>
    rw [List.find?_congr fun p hp => isPreferred_of_no_reply hreply hp, Option.none_or]
    split <;> next hpub => simp [hpub]

/-- Without a choice between replies and publications, whatever is expected is preferred. -/
theorem isPreferred_eq_isExpected (h : Unmixed expected) (q : List Payload) :
    isPreferred expected q = isExpected expected q := by
  funext p
  unfold isPreferred
  split
  · next hreply =>
    obtain ⟨r, -, hr⟩ := List.any_eq_true.1 hreply
    obtain ⟨hkind, hr⟩ := isExpectedReply_iff.1 hr
    have hpub : .publish ∉ expected := fun hpub => hkind (h hpub _ hr)
    rw [isExpectedReply, isExpected, decide_eq_decide]
    exact ⟨And.right, fun hp => ⟨fun hkind => hpub (hkind ▸ hp), hp⟩⟩
  · rfl

theorem preferring_refines_oldest : preferring.Refines oldest InboxAct.Unmixed (· = ·) where
  taken := by
    rintro q _ a rfl ha
    cases a with
    | take => exact congrArg (q.find? ·) (isPreferred_eq_isExpected ha q)
    | _ => rfl
  kept := by
    rintro q _ a rfl ha
    cases a with
    | take => exact congrArg (q.eraseP ·) (isPreferred_eq_isExpected ha q)
    | _ => rfl
  size h := congrArg List.length h
  isEmpty h := congrArg List.isEmpty h

end Queue

/-! ## Two queues as one -/

namespace Inbox

open Queue

variable {q : List Payload} {expected : List PayloadKind}

/-- The inbox that holds what is queued. -/
def ofQueue (q : List Payload) : Inbox :=
  ⟨q.filter (·.kind ≠ .publish), q.filterMap Payload.publication?⟩

theorem park_ofQueue (q : List Payload) (p : Payload) :
    (ofQueue q).park p = ofQueue (q ++ [p]) := by
  cases p <;> simp [ofQueue, park, Payload.kind, Payload.publication?]

theorem find?_replies_ofQueue (expected : List PayloadKind) (q : List Payload) :
    (ofQueue q).replies.find? (·.kind ∈ expected) = q.find? (isExpectedReply expected) := by
  rw [ofQueue, List.find?_filter]
  refine List.find?_congr fun p _ => ?_
  simp [isExpectedReply]

theorem eraseP_congr {f g : Payload → Bool} (h : ∀ p ∈ q, f p = g p) : q.eraseP f = q.eraseP g := by
  induction q with
  | nil => rfl
  | cons p q ih =>
    obtain ⟨hp, hq⟩ := List.forall_mem_cons.1 h
    rw [List.eraseP_cons, List.eraseP_cons, hp, ih hq]

/-- Taking a reply leaves the publications alone. -/
theorem ofQueue_eraseP_reply (expected : List PayloadKind) (q : List Payload) :
    ofQueue (q.eraseP (isExpectedReply expected)) =
      { ofQueue q with replies := (ofQueue q).replies.eraseP (·.kind ∈ expected) } := by
  have hreplies : (ofQueue q).replies.eraseP (·.kind ∈ expected) =
      (q.eraseP (isExpectedReply expected)).filter (·.kind ≠ .publish) := by
    rw [ofQueue, List.eraseP_filter]
    congr 2
    funext p
    simp [isExpectedReply, Bool.and_comm]
  have hpublications : (q.eraseP (isExpectedReply expected)).filterMap Payload.publication? =
      q.filterMap Payload.publication? := by
    rcases List.exists_or_eq_self_of_eraseP (isExpectedReply expected) q with
      h | ⟨r, before, later, -, hr, hq, h⟩
    · rw [h]
    · rw [h, hq, List.filterMap_append, List.filterMap_append, List.filterMap_cons_none
        (Payload.publication?_eq_none (isExpectedReply_iff.1 hr).1)]
  rw [hreplies, ofQueue, hpublications, ofQueue]

/-- Taking a publication takes the first one and leaves the replies alone. -/
theorem eraseP_publish_of_publications {p : Publication} {ps : List Publication}
    (h : (ofQueue q).publications = p :: ps) :
    q.find? (·.kind = .publish) = some (.publish p) ∧
      ofQueue (q.eraseP (·.kind = .publish)) = { ofQueue q with publications := ps } := by
  obtain ⟨before, r, later, rfl, hbefore, hr, rfl⟩ := List.filterMap_eq_cons_iff.1 h
  have hr : r = .publish p := by
    cases r with
    | publish _ => exact congrArg _ (Option.some.inj hr)
    | _ => exact nomatch hr
  subst hr
  have hkind : ∀ b ∈ before, ¬ decide (b.kind = .publish) := by
    intro b hb hkind
    cases b with
    | publish => exact nomatch hbefore _ hb
    | _ => exact nomatch hkind
  constructor
  · rw [List.find?_append, List.find?_eq_none.2 hkind]
    rfl
  · rw [List.eraseP_append_right _ hkind, List.eraseP_cons_of_pos rfl]
    have hnone := List.filterMap_eq_nil_iff.2 hbefore
    simp [ofQueue, hnone, Payload.kind, Payload.publication?]

theorem find?_publish_of_publications_nil (h : (ofQueue q).publications = []) :
    q.find? (·.kind = .publish) = none := by
  refine List.find?_eq_none.2 fun p hp hkind => ?_
  have hnone := List.filterMap_eq_nil_iff.1 h p hp
  cases p with
  | publish => exact nomatch hnone
  | _ => exact nomatch hkind

theorem size_park (i : Inbox) (p : Payload) : (i.park p).size = i.size + 1 := by
  cases p <;> simp only [park, size, List.length_append, List.length_singleton] <;> omega

theorem size_ofQueue (q : List Payload) : (ofQueue q).size = q.length := by
  induction q using List.reverseRecOn with
  | nil => rfl
  | append_singleton q p ih =>
    rw [← park_ofQueue, size_park, ih, List.length_append, List.length_singleton]

theorem isEmpty_eq_size_beq_zero (i : Inbox) : i.isEmpty = (i.size == 0) := by
  obtain ⟨replies, publications⟩ := i
  cases replies <;> cases publications <;> rfl

theorem act_ofQueue (q : List Payload) (a : InboxAct) :
    store.act (ofQueue q) a = ((preferring.act q a).1, ofQueue (preferring.act q a).2) := by
  cases a with
  | park p => exact congrArg (none, ·) (park_ofQueue q p)
  | clear => rfl
  | take expected =>
    simp only [store, Queue.store, take?, find?_replies_ofQueue]
    cases hreply : q.find? (isExpectedReply expected) with
    | some r =>
      rw [isPreferred_of_reply ⟨r, List.mem_of_find?_eq_some hreply, List.find?_some hreply⟩,
        hreply, ofQueue_eraseP_reply]
    | none =>
      have hfound := find?_isPreferred expected q
      rw [choice, hreply, Option.none_or] at hfound
      by_cases hpub : .publish ∈ expected
      · rw [if_pos hpub] at hfound
        cases hpublications : (ofQueue q).publications with
        | nil =>
          rw [find?_publish_of_publications_nil hpublications] at hfound
          rw [hfound, List.eraseP_of_forall_not (List.find?_eq_none.1 hfound)]
        | cons p ps =>
          obtain ⟨hfirst, herase⟩ := eraseP_publish_of_publications hpublications
          have hsame : q.eraseP (isPreferred expected q) = q.eraseP (·.kind = .publish) :=
            eraseP_congr fun p hp => by simpa [hpub] using isPreferred_of_no_reply hreply hp
          simp only [if_pos hpub, hfound, hfirst, hsame, herase]
      · rw [if_neg hpub] at hfound
        rw [hfound, List.eraseP_of_forall_not (List.find?_eq_none.1 hfound)]
        cases (ofQueue q).publications <;> simp [hpub]

/-- The inbox is a queue that prefers replies. -/
theorem refines_preferring : store.Refines preferring (fun _ => True) fun i q => i = ofQueue q where
  taken := by
    rintro _ q a rfl -
    rw [act_ofQueue]
  kept := by
    rintro _ q a rfl -
    rw [act_ofQueue]
  size := by
    rintro _ q rfl
    exact size_ofQueue q
  isEmpty := by
    rintro _ q rfl
    have hsize := isEmpty_eq_size_beq_zero (ofQueue q)
    rw [size_ofQueue] at hsize
    cases q <;> exact hsize

end Inbox

theorem Unmixed.of_notMem {expected : List PayloadKind} (h : .publish ∉ expected) :
    Unmixed expected :=
  fun hpub => absurd hpub h

/-- Whatever is done with an inbox, it is one queue in the order of arrival. An expected reply is
taken first, or else an expected publication, and the others keep their order; if replies and
publications are never expected together, and a session never does that, it is always the oldest
expected payload. What was parked since the inbox was last cleared is what was taken and what is
held. -/
theorem inbox_is_queue (acts : List InboxAct) :
    let q := Queue.preferring.after [] acts
    Inbox.store.after .empty acts = .ofQueue q ∧
    (∀ expected, ∃ q', Inbox.store.act (.ofQueue q) (.take expected) =
        (Queue.choice expected q, .ofQueue q') ∧
      (Queue.choice expected q = none ∧ q' = q ∨ ∃ before p later,
        Queue.choice expected q = some p ∧ p ∉ before ∧
          q = before ++ p :: later ∧ q' = before ++ later)) ∧
    Queue.Balanced (sinceClear (Inbox.store.reports .empty acts)) q ∧
    Inbox.store.reports .empty acts = Queue.preferring.reports [] acts ∧
    ((∀ a ∈ acts, a.Unmixed) →
      Inbox.store.reports .empty acts = Queue.oldest.reports [] acts) ∧
    (∀ r : Request, Unmixed r.replies) ∧ Unmixed registrationReplies ∧ Unmixed [.publish] := by
  intro q
  have hreports : Inbox.store.reports .empty acts = Queue.preferring.reports [] acts :=
    Inbox.refines_preferring.reports (t := []) rfl fun _ _ => trivial
  refine ⟨Inbox.refines_preferring.after (t := []) rfl fun _ _ => trivial, fun expected => ?_, ?_,
    hreports, fun hacts => ?_, fun r => .of_notMem r.publish_notMem_replies, .of_notMem nofun, ?_⟩
  · refine ⟨q.eraseP (Queue.isPreferred expected q), ?_, ?_⟩
    · rw [Inbox.act_ofQueue, ← Queue.find?_isPreferred]
      rfl
    · rw [← Queue.find?_isPreferred]
      exact Queue.find?_eraseP_cases ..
  · rw [hreports]
    exact Queue.conserved ..
  · exact hreports.trans (Queue.preferring_refines_oldest.reports rfl hacts)
  · exact fun _ _ hk => List.mem_singleton.1 hk

/-- Two publications and a reply between them: an expected reply does not use up a publication, and
an expected publication is the older one. -/
theorem inbox_is_queue_of_unmixed_acts :
    let acts := [.park (.publish ⟨⟨"t"⟩, .world, "1"⟩), .park (.pubAck .success),
      .park (.publish ⟨⟨"t"⟩, .world, "2"⟩), .take [.subAck], .take [.pubAck, .disconnect],
      .take [.publish]]
    (∀ a ∈ acts, InboxAct.Unmixed a) ∧
    Inbox.store.reports .empty acts = Queue.oldest.reports [] acts ∧
    (Inbox.store.reports .empty acts).map (·.size) = [1, 2, 3, 3, 2, 1] := by
  intro acts
  have hacts : ∀ a ∈ acts, a.Unmixed := by decide
  exact ⟨hacts, (inbox_is_queue acts).2.2.2.2.1 hacts, rfl⟩

end Geocast
