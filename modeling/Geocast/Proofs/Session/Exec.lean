import Geocast.Session.Basic

/-! # Running actions

`exec` runs an action on a session. `Ends s x Q E` says how the action `x` ends on `s`: with a value
and a session that satisfy `Q`, or with an error and a session that satisfy `E`. The rules are
equivalences, by which `simp` runs an action from its first step on. -/

namespace Geocast

namespace Session

variable {W : Wire} {α β : Type}

/-- Runs an action. -/
def exec (x : Action W α) (s : Session W) : Except SessionError α × Session W := x.run.run s

theorem exec_get_bind (f : Session W → Action W α) (s : Session W) :
    exec (get >>= f) s = exec (f s) s := rfl

theorem exec_of_toOption {x : Action W α} {s : Session W} {a : α}
    (h : (exec x s).1.toOption = some a) : exec x s = (.ok a, (exec x s).2) := by
  generalize exec x s = y at h ⊢
  rcases y with ⟨e | b, s'⟩ <;> cases h
  rfl

theorem exec_of_isNone {x : Action W (Option α)} {s : Session W}
    (h : (exec x s).1.toOption.map Option.isNone = some true) :
    exec x s = (.ok none, (exec x s).2) := by
  obtain ⟨a, ha, hnone⟩ := Option.map_eq_some_iff.1 h
  obtain rfl := Option.isNone_iff_eq_none.1 hnone
  exact exec_of_toOption ha

theorem exec_of_toOption_none {x : Action W α} {s : Session W}
    (h : (exec x s).1.toOption = none) : ∃ e, exec x s = (.error e, (exec x s).2) := by
  generalize exec x s = y at h ⊢
  rcases y with ⟨e | b, s'⟩
  · exact ⟨e, rfl⟩
  · exact nomatch h

/-- How an action ends, with a value or with an error. -/
def Ends (s : Session W) (x : Action W α) (Q : α → Session W → Prop)
    (E : SessionError → Session W → Prop) : Prop :=
  match exec x s with
  | (.ok a, s') => Q a s'
  | (.error e, s') => E e s'

section
variable {s : Session W} {x : Action W α} {Q Q' : α → Session W → Prop}
  {E E' : SessionError → Session W → Prop}

theorem ends_iff : Ends s x Q E ↔ (∀ a s', exec x s = (.ok a, s') → Q a s') ∧
    ∀ e s', exec x s = (.error e, s') → E e s' := by
  unfold Ends
  rcases exec x s with ⟨_ | _, _⟩ <;> simp

/-- An action ends as it is run. -/
theorem ends_exec (x : Action W α) (s : Session W) :
    Ends s x (fun a s' => exec x s = (.ok a, s')) fun e s' => exec x s = (.error e, s') :=
  ends_iff.2 ⟨fun _ _ h => h, fun _ _ h => h⟩

theorem Ends.ok (H : Ends s x Q E) {a : α} {s' : Session W} (h : exec x s = (.ok a, s')) : Q a s' :=
  (ends_iff.1 H).1 a s' h

theorem Ends.error (H : Ends s x Q E) {e : SessionError} {s' : Session W}
    (h : exec x s = (.error e, s')) : E e s' :=
  (ends_iff.1 H).2 e s' h

theorem Ends.mono (H : Ends s x Q E) (hQ : ∀ a s', Q a s' → Q' a s')
    (hE : ∀ e s', E e s' → E' e s') : Ends s x Q' E' :=
  ends_iff.2 ⟨fun a s' h => hQ a s' (H.ok h), fun e s' h => hE e s' (H.error h)⟩

theorem ends_of_forall (hQ : ∀ a s', Q a s') (hE : ∀ e s', E e s') : Ends s x Q E :=
  ends_iff.2 ⟨fun a s' _ => hQ a s', fun e s' _ => hE e s'⟩

theorem Ends.and (H : Ends s x Q E) (H' : Ends s x Q' E') :
    Ends s x (fun a s' => Q a s' ∧ Q' a s') fun e s' => E e s' ∧ E' e s' :=
  ends_iff.2 ⟨fun _ _ h => ⟨H.ok h, H'.ok h⟩, fun _ _ h => ⟨H.error h, H'.error h⟩⟩

end

section
variable (s : Session W) (Q : β → Session W → Prop) (E : SessionError → Session W → Prop)

@[simp] theorem ends_pure (b : β) : Ends s (pure b) Q E ↔ Q b s := .rfl

@[simp] theorem ends_throw (e : SessionError) : Ends s (throw e) Q E ↔ E e s := .rfl

@[simp] theorem ends_bind (x : Action W α) (f : α → Action W β) :
    Ends s (x >>= f) Q E ↔ Ends s x (fun a s' => Ends s' (f a) Q E) E := by
  have h : exec (x >>= f) s = match exec x s with
      | (.ok a, s') => exec (f a) s'
      | (.error e, s') => (.error e, s') := by
    unfold exec ExceptT.run StateT.run
    simp only [bind, ExceptT.bind, ExceptT.mk, StateT.bind, ExceptT.bindCont]
    rcases x s with ⟨_ | _, _⟩ <;> rfl
  unfold Ends
  rw [h]
  rcases exec x s with ⟨_ | _, _⟩ <;> rfl

@[simp] theorem ends_map (x : Action W α) (f : α → β) :
    Ends s (f <$> x) Q E ↔ Ends s x (fun a s' => Q (f a) s') E := by
  rw [map_eq_pure_bind, ends_bind]
  rfl

@[simp] theorem ends_tryCatch (x : Action W β) (f : SessionError → Action W β) :
    Ends s (tryCatch x f) Q E ↔ Ends s x Q fun e s' => Ends s' (f e) Q E := by
  have h : exec (tryCatch x f) s = match exec x s with
      | (.ok a, s') => (.ok a, s')
      | (.error e, s') => exec (f e) s' := by
    unfold exec ExceptT.run StateT.run
    simp only [tryCatch, tryCatchThe, MonadExceptOf.tryCatch, ExceptT.tryCatch, ExceptT.mk, bind,
      StateT.bind]
    rcases x s with ⟨_ | _, _⟩ <;> rfl
  unfold Ends
  rw [h]
  rcases exec x s with ⟨_ | _, _⟩ <;> rfl

@[simp] theorem ends_get (Q : Session W → Session W → Prop) :
    Ends s (get : Action W (Session W)) Q E ↔ Q s s := .rfl

@[simp] theorem ends_set (Q : PUnit → Session W → Prop) (s' : Session W) :
    Ends s (set s' : Action W PUnit) Q E ↔ Q ⟨⟩ s' := .rfl

@[simp] theorem ends_modify (Q : PUnit → Session W → Prop) (f : Session W → Session W) :
    Ends s (modify f : Action W PUnit) Q E ↔ Q ⟨⟩ (f s) := .rfl

theorem ends_ofOutcome_of_forall {Q : β → Session W → Prop} {E : SessionError → Session W → Prop}
    (r : Except SessionError β) (hQ : ∀ b, Q b s) (hE : ∀ e, E e s) : Ends s (ofOutcome r) Q E := by
  cases r with
  | ok b => exact hQ b
  | error e => exact hE e

@[simp] theorem ends_ofOutcome (r : Except SessionError β) : Ends s (ofOutcome r) Q E ↔
    match r with
    | .ok b => Q b s
    | .error e => E e s := by
  cases r <;> rfl

end

theorem exists_of_exec_map {x : Action W α} {f : α → β} {b : β} {s s' : Session W}
    (h : exec (f <$> x) s = (.ok b, s')) : ∃ a, exec x s = (.ok a, s') ∧ f a = b := by
  have H : Ends s (f <$> x) (fun b s' => ∃ a, exec x s = (.ok a, s') ∧ f a = b)
      fun _ _ => True := by
    rw [ends_map]
    exact ends_iff.2 ⟨fun a _ ha => ⟨a, ha, rfl⟩, fun _ _ _ => trivial⟩
  exact H.ok h

/-- How an action ends, holds of its result and of the session afterwards. -/
theorem Ends.result {x : Action W α} {s : Session W}
    {R : Except SessionError α → Session W → Prop}
    (H : Ends s x (fun a s' => R (.ok a) s') fun e s' => R (.error e) s') :
    R (exec x s).1 (exec x s).2 := by
  rcases hr : Session.exec x s with ⟨e | a, s'⟩
  · exact H.error hr
  · exact H.ok hr

/-- What holds whether an action fails or not, holds of the session afterwards. -/
theorem Ends.exec {x : Action W α} {s : Session W} {P : Session W → Prop}
    (H : Ends s x (fun _ => P) fun _ => P) : P (exec x s).2 :=
  H.result (R := fun _ => P)

/-! ## Actions that keep a property -/

/-- An action that keeps `P` if it returns a value, and ends in `E` if it fails. -/
def Keeps (P : Session W → Prop) (E : SessionError → Session W → Prop) (x : Action W α) : Prop :=
  ∀ s, P s → Ends s x (fun _ => P) E

namespace Keeps

variable {P : Session W → Prop} {E : SessionError → Session W → Prop}

theorem pure (a : α) : Keeps P E (pure a) := fun _ h => h

theorem throw {e : SessionError} (h : ∀ s, P s → E e s) : Keeps P E (throw e : Action W α) := h

theorem get : Keeps P E (get : Action W (Session W)) := fun _ h => h

/-- What an action keeps whether it fails or not, the session has afterwards. -/
theorem exec {x : Action W α} {s : Session W} (hx : Keeps P (fun _ => P) x) (h : P s) :
    P (Session.exec x s).2 :=
  (hx s h).exec

theorem bind {x : Action W α} {f : α → Action W β} (hx : Keeps P E x)
    (hf : ∀ a, Keeps P E (f a)) : Keeps P E (x >>= f) := fun s h =>
  (ends_bind ..).2 ((hx s h).mono hf fun _ _ he => he)

/-- What an action keeps of two things apart, it keeps of both. -/
theorem and {P' : Session W → Prop} {x : Action W α} (hx : Keeps P (fun _ => P) x)
    (hx' : Keeps P' (fun _ => P') x) :
    Keeps (fun s => P s ∧ P' s) (fun _ s => P s ∧ P' s) x := fun s h =>
  (hx s h.1).and (hx' s h.2)

end Keeps

end Session

end Geocast
