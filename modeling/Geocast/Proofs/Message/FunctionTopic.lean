import Mathlib.Logic.Function.Basic
import Geocast.Broker.Forwarding
import Geocast.Message.Function

/-! # Topics of function calls

The topic of a function message is spliced from a name and an action, and the name may be any text,
with slashes of its own. Behind the last slash of the topic stands the level of the action
(`lastLevel_functionTopic`), so the topic can be taken apart again (`functionTopic_inj`), and a call
convention that looks at the last level finds the action there and nothing of the name. -/

namespace Geocast

namespace Topic

/-! ## The last level -/

theorem slash_not_mem_lastLevelOf (name : List Char) : '/' ∉ lastLevelOf name := by
  fun_induction lastLevelOf name with
  | case1 => exact List.not_mem_nil
  | case2 c cs hslash ih => exact ih
  | case3 c cs hslash => exact hslash

theorem lastLevelOf_eq_self {name : List Char} (h : '/' ∉ name) : lastLevelOf name = name := by
  cases name with
  | nil => rfl
  | cons c cs => exact if_neg h

/-- What stands in front of a slash makes no difference to the last level. -/
theorem lastLevelOf_append (front rest : List Char) :
    lastLevelOf (front ++ '/' :: rest) = lastLevelOf rest := by
  induction front with
  | nil => exact if_pos List.mem_cons_self
  | cons c front ih =>
    have hslash : '/' ∈ c :: (front ++ '/' :: rest) := by simp
    rw [List.cons_append, lastLevelOf, if_pos hslash, ih]

/-- A name has only one level, or it ends in a slash with the last level behind it. -/
theorem eq_lastLevelOf_or (name : List Char) :
    name = lastLevelOf name ∨ ∃ front, name = front ++ '/' :: lastLevelOf name := by
  fun_induction lastLevelOf name with
  | case1 => exact .inl rfl
  | case2 c cs hslash ih =>
    obtain hone | ⟨front, hfront⟩ := ih
    · -- no slash is left in `cs`, so the one that is there is `c`
      have hcs : '/' ∉ cs := hone ▸ slash_not_mem_lastLevelOf cs
      obtain rfl : '/' = c := (List.mem_cons.1 hslash).resolve_right hcs
      exact .inr ⟨[], congrArg _ hone⟩
    · exact .inr ⟨c :: front, congrArg _ hfront⟩
  | case3 c cs hslash => exact .inl rfl

theorem lastLevelOf_eq_iff {name level : List Char} : lastLevelOf name = level ↔
    '/' ∉ level ∧ (name = level ∨ ∃ front, name = front ++ '/' :: level) := by
  constructor
  · rintro rfl
    exact ⟨slash_not_mem_lastLevelOf name, eq_lastLevelOf_or name⟩
  · rintro ⟨hlevel, rfl | ⟨front, rfl⟩⟩
    · exact lastLevelOf_eq_self hlevel
    · rw [lastLevelOf_append, lastLevelOf_eq_self hlevel]

theorem lastLevel_eq_iff {t : Topic} {level : String} :
    t.lastLevel = level ↔ lastLevelOf t.name.toList = level.toList := by
  rw [lastLevel, ← String.toList_inj, String.toList_ofList]

/-- A topic ends with a level that has no slash in it and either is all of the topic or stands
behind a slash at its end. -/
theorem endsWithLevel_iff {t : Topic} {level : String} : t.endsWithLevel level ↔
    '/' ∉ level.toList ∧ (t.name = level ∨ ∃ front, t.name = front ++ "/" ++ level) := by
  have hfront : (∃ front, t.name.toList = front ++ '/' :: level.toList) ↔
      ∃ front, t.name = front ++ "/" ++ level := by
    constructor
    · rintro ⟨front, h⟩
      exact ⟨String.ofList front, String.toList_inj.1 (by simpa using h)⟩
    · rintro ⟨front, h⟩
      exact ⟨front.toList, by simp [h]⟩
  rw [endsWithLevel, decide_eq_true_iff, lastLevel_eq_iff, lastLevelOf_eq_iff, hfront,
    String.toList_inj]

end Topic

/-! ## Name and action of a topic -/

namespace FunctionAction

theorem level_injective : Function.Injective level := by
  rintro (_ | _ | _ | _) (_ | _ | _ | _) h <;> first | rfl | exact absurd h (by decide)

theorem slash_not_mem_level (a : FunctionAction) : '/' ∉ a.level.toList := by
  cases a <;> decide

end FunctionAction

variable {f g : String} {a b : FunctionAction}

theorem functionTopic_name_toList (f : String) (a : FunctionAction) :
    (functionTopic f a).name.toList =
      "functions/".toList ++ f.toList ++ '/' :: a.level.toList := by
  simp [functionTopic]

@[simp] theorem lastLevel_functionTopic (f : String) (a : FunctionAction) :
    (functionTopic f a).lastLevel = a.level := by
  rw [Topic.lastLevel_eq_iff, functionTopic_name_toList, Topic.lastLevelOf_append,
    Topic.lastLevelOf_eq_self a.slash_not_mem_level]

theorem functionTopic_inj : functionTopic f a = functionTopic g b ↔ f = g ∧ a = b := by
  refine ⟨fun h => ?_, fun ⟨hname, haction⟩ => hname ▸ haction ▸ rfl⟩
  have hlevel : a.level = b.level := by simpa using congrArg Topic.lastLevel h
  obtain rfl : a = b := FunctionAction.level_injective hlevel
  have hname := congrArg (·.name.toList) h
  simp only [functionTopic_name_toList] at hname
  exact ⟨String.toList_inj.1 (List.append_cancel_left (List.append_cancel_right hname)), rfl⟩

theorem endsWithLevel_functionTopic {level : String} :
    (functionTopic f a).endsWithLevel level ↔ a.level = level := by
  rw [Topic.endsWithLevel, decide_eq_true_iff, lastLevel_functionTopic]

theorem endsWithLevel_functionTopic_level :
    (functionTopic f a).endsWithLevel b.level ↔ a = b :=
  endsWithLevel_functionTopic.trans FunctionAction.level_injective.eq_iff

/-! ## Calls and results -/

namespace CallConvention

theorem endsWithLevel_requestSuffix :
    (functionTopic f a).endsWithLevel standard.requestSuffix ↔ a = .call :=
  endsWithLevel_functionTopic_level (b := .call)

theorem endsWithLevel_resultSuffix :
    (functionTopic f a).endsWithLevel standard.resultSuffix ↔ a = .result :=
  endsWithLevel_functionTopic_level (b := .result)

/-- What the standard convention keeps local goes by the action of a function message, and not by
the name of the function. -/
theorem standard_policy_functionTopic {publisher : String} {r : ReasonCode} :
    standard.policy ⟨publisher, functionTopic f a, r⟩ ↔
      (a = .result ∧ standard.isLocalService publisher) ∨
        (a = .call ∧ r ≠ .noMatchingSubscribers) := by
  simp only [policy, Bool.or_eq_true, Bool.and_eq_true, decide_eq_true_iff,
    endsWithLevel_resultSuffix, endsWithLevel_requestSuffix]

end CallConvention

/-- Function topics cannot be confused, whatever names functions have. Two topics are equal only if
both the names and the actions are. A topic ends with a level exactly if that has no slash in it
and is the topic or stands behind a slash at its end. So under the standard convention a function
topic is one of requests exactly if its action is a call, and one of results exactly if its action
is a result; and nothing else about the topic decides what is kept local. -/
theorem functionTopic_unambiguous :
    (∀ f g a b, functionTopic f a = functionTopic g b ↔ f = g ∧ a = b) ∧
    (∀ (t : Topic) (level : String), t.endsWithLevel level ↔
      '/' ∉ level.toList ∧ (t.name = level ∨ ∃ front, t.name = front ++ "/" ++ level)) ∧
    let k := CallConvention.standard
    ∀ f a,
      ((functionTopic f a).endsWithLevel k.requestSuffix ↔ a = .call) ∧
      ((functionTopic f a).endsWithLevel k.resultSuffix ↔ a = .result) ∧
      ∀ publisher r, k.policy ⟨publisher, functionTopic f a, r⟩ ↔
        (a = .result ∧ k.isLocalService publisher) ∨ (a = .call ∧ r ≠ .noMatchingSubscribers) := by
  refine ⟨fun f g a b => functionTopic_inj, fun t level => Topic.endsWithLevel_iff, fun f a => ?_⟩
  exact ⟨CallConvention.endsWithLevel_requestSuffix, CallConvention.endsWithLevel_resultSuffix,
    fun publisher r => CallConvention.standard_policy_functionTopic⟩

/-- The name of a function may end in the level of another action, and it may be empty. -/
example : ¬ (functionTopic "sieve/call" .ack).endsWithLevel "call" ∧
    (functionTopic "" .call).endsWithLevel "call" := by decide

end Geocast
