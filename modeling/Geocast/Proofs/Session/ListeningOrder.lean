import Geocast.Proofs.Session.Listening

/-! # The order of what listening holds back

A session hands out parked publications in the order in which they are parked. Listening puts those
that it held back behind those that it did not look at, so it keeps the order of arrival unless the
message that it finds was parked between two others: `Interposes` says when, and
`listen_keeps_order_iff` that this is the only exception. -/

namespace Geocast

section
variable {α : Type} {P : α → Prop} {xs xs' ys ys' : List α} {x x' y : α}

/-- A list is divided in one way only at the first element with a property. -/
theorem append_cons_inj_of_first (hxs : ∀ a ∈ xs, ¬ P a) (hxs' : ∀ a ∈ xs', ¬ P a) (hx : P x)
    (hx' : P x') (h : xs ++ x :: ys = xs' ++ x' :: ys') : xs = xs' ∧ x = x' ∧ ys = ys' := by
  induction xs generalizing xs' with
  | nil =>
    cases xs' with
    | nil => exact ⟨rfl, (List.cons.inj h).1, (List.cons.inj h).2⟩
    | cons a xs' =>
      obtain ⟨rfl, -⟩ := List.cons.inj h
      exact absurd hx (hxs' x List.mem_cons_self)
  | cons a xs ih =>
    obtain ⟨ha, hxs⟩ := List.forall_mem_cons.1 hxs
    cases xs' with
    | nil =>
      obtain ⟨rfl, -⟩ := List.cons.inj h
      exact absurd hx' ha
    | cons a' xs' =>
      obtain ⟨rfl, htail⟩ := List.cons.inj h
      obtain ⟨rfl, hrest⟩ := ih hxs (List.forall_mem_cons.1 hxs').2 htail
      exact ⟨rfl, hrest⟩

/-- Two elements of a list without repetitions stand in one order only. -/
theorem not_sublist_of_swapped (h : (xs ++ ys).Nodup) (hx : x ∈ xs) (hy : y ∈ ys) :
    ¬ [y, x].Sublist (xs ++ ys) := by
  intro hsub
  obtain ⟨-, -, hdisjoint⟩ := List.nodup_append.1 h
  obtain ⟨first, second, hsplit, hfirst, hsecond⟩ := List.sublist_append_iff.1 hsub
  cases first with
  | nil =>
    obtain rfl : [y, x] = second := hsplit
    exact hdisjoint x hx x (hsecond.subset (by simp)) rfl
  | cons a first =>
    obtain ⟨rfl, -⟩ := List.cons.inj hsplit
    exact hdisjoint y (hfirst.subset (by simp)) y hy rfl

end

/-- The first parked message that is waited for lies behind a publication that is kept, and ahead of
another one. -/
def Inbox.Interposes (i : Inbox) (action : FunctionAction) (request : RequestId) : Prop :=
  ∃ ahead p behind, i.publications = ahead ++ p :: behind ∧ p.Answers action request ∧
    (∀ q ∈ ahead, ¬ q.Answers action request) ∧ (∃ q ∈ ahead, ¬ q.IsForeign request) ∧ behind ≠ []

theorem mem_notForeign {request : RequestId} {p : Publication} {ps : List Publication} :
    p ∈ notForeign request ps ↔ p ∈ ps ∧ ¬ p.IsForeign request := by
  simp [notForeign]

namespace Session

variable {W : Wire} {action : FunctionAction} {request : RequestId} {s s' : Session W}
  {r : Except SessionError (Option FunctionMessage)} {arrived : List Payload}
  {ahead behind : List Publication} {answer : Option Publication}

/-- The next publication is the one that is parked first. -/
theorem nextPublication_of_parked (hs : s.inbox.Sorted) {p : Publication} {ps : List Publication}
    (h : s.inbox.publications = p :: ps) (budget : Nat) :
    exec (nextPublication budget) s =
      (.ok (some p), { s with inbox := { s.inbox with publications := ps } }) := by
  have hnone : s.inbox.replies.find? (·.kind ∈ [PayloadKind.publish]) = none := by
    simpa [Inbox.Sorted] using hs
  have htake : s.inbox.take? [.publish] =
      some (.publish p, { s.inbox with publications := ps }) := by
    rw [Inbox.take?, hnone, h]
    rfl
  have H : Ends s (nextPublication budget)
      (fun q s' => q = some p ∧ s' = { s with inbox := { s.inbox with publications := ps } })
      fun _ _ => False := by
    simp only [nextPublication, next?, ends_bind, ends_get]
    rw [htake]
    exact ⟨rfl, rfl⟩
  rcases hr : exec (nextPublication budget) s with ⟨e | q, s'⟩
  · exact (H.error hr).elim
  · obtain ⟨rfl, rfl⟩ := H.ok hr
    rfl

/-! ## When the order is kept -/

/-- What was not looked at stands behind a parked message. -/
theorem Sifted.behind_parked (H : Sifted action request s r s' arrived ahead answer behind)
    (hbehind : behind ≠ []) : ∃ p, p.Answers action request ∧
      s.inbox.publications = ahead ++ p :: behind ∧ arrived = [] := by
  have harrived : arrived = [] := H.unread.resolve_right hbehind
  have hreturns := H.returns
  cases answer with
  | none => exact absurd (H.through rfl) hbehind
  | some p =>
    obtain ⟨m, -, hm⟩ := hreturns
    refine ⟨p, hm.answers, ?_, harrived⟩
    simpa [harrived] using H.publications

theorem Sifted.sublist (H : Sifted action request s r s' arrived ahead answer behind)
    (hinbox : ¬ s.inbox.Interposes action request) : s'.inbox.publications.Sublist
      (s.inbox.publications ++ arrived.filterMap Payload.publication?) := by
  rw [H.kept, H.publications]
  by_cases hbehind : behind = []
  · subst hbehind
    rw [List.nil_append, List.append_nil]
    exact List.filter_sublist.trans (List.sublist_append_left _ _)
  · obtain ⟨p, hp, hparked, -⟩ := H.behind_parked hbehind
    have hnone : notForeign request ahead = [] := by
      refine List.eq_nil_iff_forall_not_mem.2 fun q hq => hinbox ?_
      exact ⟨ahead, p, behind, hparked, hp, H.unanswered, ⟨q, mem_notForeign.1 hq⟩, hbehind⟩
    rw [hnone, List.append_nil]
    exact List.sublist_append_right _ _

/-- If a parked message lies between two publications that are kept, these are exchanged. -/
theorem Sifted.exchanged (H : Sifted action request s r s' arrived ahead answer behind)
    (hinbox : s.inbox.Interposes action request) :
    ∃ p, s.inbox.publications = ahead ++ p :: behind ∧ arrived = [] ∧
      ∃ x ∈ ahead, ∃ y ∈ behind, [y, x].Sublist s'.inbox.publications := by
  obtain ⟨before, p, after, hparked, hp, hbefore, ⟨x, hx, hkept⟩, hafter⟩ := hinbox
  have hall := H.publications
  have hreturns := H.returns
  cases answer with
  | none =>
    have hahead : p ∈ ahead := by
      have heq : s.inbox.publications ++ arrived.filterMap Payload.publication? = ahead := by
        simpa [H.through rfl] using hall
      rw [← heq, hparked]
      simp
    exact absurd hp (H.unanswered p hahead)
  | some q =>
    obtain ⟨m, -, hq⟩ := hreturns
    rw [hparked, List.append_assoc, List.append_assoc] at hall
    obtain ⟨rfl, rfl, hrest⟩ := append_cons_inj_of_first hbefore H.unanswered hp hq.answers hall
    obtain ⟨_, -, -, rfl⟩ := H.behind_parked fun h =>
      hafter (List.append_eq_nil_iff.1 (hrest.trans h)).1
    obtain rfl : after = behind := by simpa using hrest
    obtain ⟨y, hy⟩ := List.exists_mem_of_ne_nil after hafter
    have hfirst : [y].Sublist after := List.singleton_sublist.2 hy
    have hlast : [x].Sublist (notForeign request before) :=
      List.singleton_sublist.2 (mem_notForeign.2 ⟨hx, hkept⟩)
    refine ⟨p, hparked, rfl, x, hx, y, hy, ?_⟩
    rw [H.kept]
    exact hfirst.append hlast

/-- Listening keeps the order of arrival, with one exception. On every wire, in every state, and
whatever comes of it: the publications that are parked afterwards are some of those parked before
and those that came in since, in this order, unless the message that was found was parked behind a
publication that is kept and ahead of another one. If no two of them are equal, they are not in this
order then. The next publication that the session hands out is the first of them. -/
theorem listen_keeps_order_iff (s : Session W) (action : FunctionAction) (request : RequestId)
    (budget : Nat) :
    let s' := (exec (listen action request budget) s).2
    ∃ (n : Nat) (arrived : List Payload),
      s.Uses n ∧ s'.history = (arrived.map (.received n)).reverse ++ s.history ∧
      (¬ s.inbox.Interposes action request → s'.inbox.publications.Sublist
        (s.inbox.publications ++ arrived.filterMap Payload.publication?)) ∧
      ((s.inbox.publications ++ arrived.filterMap Payload.publication?).Nodup →
        (s'.inbox.publications.Sublist
          (s.inbox.publications ++ arrived.filterMap Payload.publication?) ↔
        ¬ s.inbox.Interposes action request)) ∧
      ∀ p ps budget', s.inbox.Sorted → s'.inbox.publications = p :: ps →
        exec (nextPublication budget') s' =
          (.ok (some p), { s' with inbox := { s'.inbox with publications := ps } }) := by
  intro s'
  obtain ⟨arrived, ahead, answer, behind, H⟩ := exists_sifted s action request budget
  obtain ⟨n, hn, hhistory⟩ := H.history
  refine ⟨n, arrived, hn, hhistory, H.sublist, fun hnodup => ⟨fun hsub hinbox => ?_, H.sublist⟩, ?_⟩
  · obtain ⟨p, hparked, rfl, x, hx, y, hy, hyx⟩ := H.exchanged hinbox
    rw [List.filterMap_nil, List.append_nil, hparked] at hnodup hsub
    exact not_sublist_of_swapped hnodup hx (List.mem_cons_of_mem p hy) (hyx.trans hsub)
  · intro p ps budget' hs hp
    refine nextPublication_of_parked (fun q hq => ?_) hp budget'
    rw [H.replies] at hq
    rcases List.mem_append.1 hq with hq | hq
    · exact hs q hq
    · simpa using (List.mem_filter.1 hq).2

end Session

/-- A result that is parked between two other publications: the second one is handed out ahead of
the first one afterwards, which arrived before it. -/
theorem result_between_exchanges :
    let first : Publication := ⟨⟨"t"⟩, .undefined, "first"⟩
    let second : Publication := ⟨⟨"t"⟩, .undefined, "second"⟩
    let s := backlog [first, .ofCall .result 1, second]
    let s' := (Session.exec (Session.listen .result ⟨1, "c", ""⟩ 0) s).2
    s.inbox.publications.map (·.content) =
        [first.content, (Publication.ofCall .result 1).content, second.content] ∧
      s'.history.length = s.history.length ∧
      s'.inbox.publications.map (·.content) = [second.content, first.content] ∧
      ¬ s'.inbox.publications.Sublist s.inbox.publications := by
  intro first second s s'
  have hrun : s.inbox.publications.map (·.content) =
        [first.content, (Publication.ofCall .result 1).content, second.content] ∧
      s'.history.length = s.history.length ∧
      s'.inbox.publications.map (·.content) = [second.content, first.content] := by decide +kernel
  obtain ⟨hbefore, hhistory, hafter⟩ := hrun
  refine ⟨hbefore, hhistory, hafter, fun hsub => ?_⟩
  have hcontents := hsub.map Publication.content
  rw [hbefore, hafter] at hcontents
  revert hcontents
  decide +kernel

end Geocast
