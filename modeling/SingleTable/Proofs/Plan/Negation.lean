import Mathlib.Logic.Function.Iterate
import SingleTable.Proofs.Plan.Routing

/-!
# Negated conditions

Negation is a flag on leaves and groups, and a condition that has the flag already becomes the only child of a
group that gets it. In the text of the condition each negation is one `NOT (…)` around what it negates, however
often a condition is negated and whichever of its parts are empty (`Condition.text_negate`): the group around a
negated condition is written as the condition alone. The maps and the leaves stay, apart from the flag of a leaf
that is negated itself, and a negated condition is a filter as a whole (`negation_is_kept`).
-/

set_option autoImplicit false

namespace SingleTable

namespace Condition

/-! ## Texts -/

/-- A text with a negation written around it. -/
def notText (text : String) : String := "NOT (" ++ text ++ ")"

theorem negatedText_false (text : String) : negatedText false text = text := by
  rw [negatedText, Bool.false_and]
  exact if_neg Bool.false_ne_true

theorem negatedText_true (text : String) :
    negatedText true text = if text = "" then "" else notText text := by
  by_cases hempty : text = ""
  · rw [if_pos hempty, hempty]
    rfl
  · have hflag : (true && !text.isEmpty) = true := by simpa using hempty
    rw [if_neg hempty, negatedText, if_pos hflag, notText]

/-- A group of one condition is written as this condition. -/
theorem joinedText_singleton (joiner : Joiner) (condition : Condition) :
    joinedText joiner (texts [condition]) = condition.text := by
  rw [texts, texts]
  split
  · rename_i hempty
    rw [String.isEmpty_iff.1 hempty]
    rfl
  · rfl

theorem notText_ne_empty (text : String) : notText text ≠ "" := by
  intro hempty
  have hlength := congrArg String.length hempty
  rw [notText, String.length_append, String.length_append] at hlength
  exact absurd hlength (by simp)

/-- Negations that are written around a text again and again. -/
theorem iterate_negatedText (text : String) (times : Nat) :
    (negatedText true)^[times] text = if text = "" then "" else notText^[times] text := by
  induction times with
  | zero =>
    rw [Function.iterate_zero_apply, Function.iterate_zero_apply]
    split
    · assumption
    · rfl
  | succ times ih =>
    rw [Function.iterate_succ_apply', Function.iterate_succ_apply', ih]
    by_cases hempty : text = ""
    · rw [if_pos hempty, if_pos hempty]
      rfl
    -- A text that is not empty does not become empty by a negation.
    · have hsome : notText^[times] text ≠ "" := by
        cases times with
        | zero => exact hempty
        | succ times =>
          rw [Function.iterate_succ_apply']
          exact notText_ne_empty _
      rw [if_neg hempty, if_neg hempty, negatedText_true, if_neg hsome]

/-! ## Negating once -/

/-- A condition with the flag of negation. -/
def flagged : Condition → Condition
  | .leaf test => .leaf { test with negated := true }
  | .group joiner children _ => .group joiner children true

section Once

variable {condition : Condition}

/-- A condition that is negated becomes the only child of a negated group, any other gets the flag. -/
theorem negate_eq (condition : Condition) :
    condition.negate = if condition.isNegated then .group .and [condition] true else condition.flagged := by
  cases condition with
  | leaf test => rfl
  | group joiner children negated => rfl

theorem text_flagged (h : condition.isNegated = false) :
    condition.flagged.text = negatedText true condition.text := by
  cases condition with
  | leaf test =>
    have hpositive : test.negated = false := h
    rw [flagged, text, text, hpositive, negatedText_false]
  | group joiner children negated =>
    have hpositive : negated = false := h
    rw [flagged, text, text, hpositive, negatedText_false]

/-- The text of a negated condition is the text of the condition with one negation around it. -/
theorem text_negate (condition : Condition) : condition.negate.text = negatedText true condition.text := by
  rw [negate_eq]
  split
  · rw [text, joinedText_singleton]
  · rename_i hpositive
    exact text_flagged (Bool.eq_false_iff.2 hpositive)

/-- The flag leaves a condition that has it as it is. -/
theorem flagged_eq_self (h : condition.isNegated = true) : condition.flagged = condition := by
  cases condition with
  | leaf test =>
    have hnegated : test.negated = true := h
    rw [flagged, ← hnegated]
  | group joiner children negated =>
    have hnegated : negated = true := h
    rw [flagged, hnegated]

theorem leaves_wrapped (condition : Condition) : (group .and [condition] true).leaves = condition.leaves := by
  rw [leaves, leavesOfAll, leavesOfAll, List.append_nil]

/-- Negation keeps the leaves of a group; a leaf gets the flag. -/
theorem leaves_negate (condition : Condition) : condition.negate.leaves = condition.flagged.leaves := by
  rw [negate_eq]
  split
  · rename_i hnegated
    rw [leaves_wrapped, flagged_eq_self hnegated]
  · rfl

theorem isNegated_negate (condition : Condition) : condition.negate.isNegated = true := by
  rw [negate_eq]
  split
  · rfl
  · cases condition <;> rfl

theorem containsOr_negate (condition : Condition) : condition.negate.containsOr = condition.containsOr := by
  rw [negate_eq]
  split
  · simp [containsOr, anyContainsOr]
  · cases condition <;> rfl

/-- The expression of a negated condition differs only in its text. -/
theorem compile_negate (condition : Condition) :
    condition.negate.compile = { condition.compile with text := negatedText true condition.text } := by
  rw [compile, compile, text_negate, leaves_negate]
  cases condition <;> rfl

end Once

end Condition

/-! ## Plans -/

/-- A negated condition is a filter as a whole, for every planner. -/
theorem Planner.plan_of_isNegated (planner : Planner) {condition : Condition}
    (h : condition.isNegated = true) : planner.plan condition = .ok (.filterOnly condition, []) := by
  cases condition with
  | leaf test =>
    have hpushable : (Condition.leaf test).isPushable planner.slots = false := by
      have hnegated : test.negated = true := h
      rw [Condition.isPushable, hnegated]
      rfl
    -- Nothing goes to a key, so no policy has anything to judge.
    have hjudge : planner.judge [] = .ok [] := by
      cases hpolicy : planner.policy <;> simp [judge, hpolicy]
    rw [plan, planAll, routeAll, route_of_not_pushable _ hpushable]
    exact bind_eq_ok_iff.2 ⟨_, rfl, bind_eq_ok_iff.2 ⟨[], hjudge, rfl⟩⟩
  | group joiner children negated =>
    have hnegated : negated = true := h
    exact plan_of_no_conjunction planner (by cases joiner <;> rw [hnegated] <;> rfl)

namespace Condition

/-- **Negation is kept.** A condition that is negated any number of times has the maps of the condition, and its
text is that of the condition with as many negations written around it, or still empty. It contains OR as the
condition does, and it has the leaves of the condition, where a leaf that is negated itself has the flag. Every
negated condition, and so every condition after a negation, is a filter as a whole. -/
theorem negation_is_kept (condition : Condition) :
    (∀ times, (negate^[times] condition).compile =
      { condition.compile with
        text := if condition.text = "" then "" else notText^[times] condition.text }) ∧
    (∀ times, (negate^[times] condition).containsOr = condition.containsOr) ∧
    (∀ times, (negate^[times + 1] condition).leaves = condition.flagged.leaves) ∧
    (∀ times, (negate^[times + 1] condition).isNegated = true) ∧
    (condition.isNegated = true →
      ∀ planner : Planner, planner.plan condition = .ok (.filterOnly condition, [])) := by
  refine ⟨fun times => ?_, fun times => ?_, fun times => ?_, fun times => ?_, fun h planner => ?_⟩
  · rw [← iterate_negatedText]
    induction times with
    | zero => rfl
    | succ times ih =>
      have htext := congrArg Fragment.text ih
      rw [Function.iterate_succ_apply', Function.iterate_succ_apply', compile_negate, ih]
      exact congrArg (fun text => { condition.compile with text := negatedText true text }) htext
  · induction times with
    | zero => rfl
    | succ times ih => rw [Function.iterate_succ_apply', containsOr_negate, ih]
  · induction times with
    | zero => exact leaves_negate condition
    | succ times ih =>
      -- After a first negation the flag is there, so a further one keeps the leaves.
      have hflag : (negate^[times + 1] condition).isNegated = true := by
        rw [Function.iterate_succ_apply']
        exact isNegated_negate _
      rw [Function.iterate_succ_apply', leaves_negate, flagged_eq_self hflag, ih]
  · rw [Function.iterate_succ_apply']
    exact isNegated_negate _
  · exact planner.plan_of_isNegated h

/-! ### Open tickets -/

/-- Tickets that are not closed, where a second test was left out. -/
def openTickets : Condition :=
  (any [.leaf ((Test.compare .eq ⟨"state", none⟩ (.string "closed")).leaf 0), all []]).negate

/-- A condition that is negated already is negated three times more, and read whole by every planner. -/
theorem negation_is_kept_tickets :
    (negate^[3] openTickets).compile =
      { openTickets.compile with text := "NOT (NOT (NOT (NOT (#state = :state_0))))" } ∧
    (negate^[3] openTickets).containsOr = true ∧ (negate^[3] openTickets).leaves = openTickets.leaves ∧
    openTickets.isNegated = true ∧
    ∀ planner : Planner, planner.plan openTickets = .ok (.filterOnly openTickets, []) := by
  obtain ⟨hcompile, hor, hleaves, -, hplan⟩ := negation_is_kept openTickets
  have hnegated : openTickets.isNegated = true := by decide +kernel
  refine ⟨?_, ?_, hleaves 2, hnegated, hplan hnegated⟩
  · rw [hcompile 3]
    decide +kernel
  · rw [hor 3]
    decide +kernel

/-- Not every negation keeps the leaves: a leaf that is negated has the flag afterwards. -/
theorem leaves_not_kept : ¬ ∀ condition : Condition, condition.negate.leaves = condition.leaves := by
  intro hall
  have hflags := congrArg (List.map Leaf.negated) (hall (.leaf ((Test.present ⟨"a", none⟩).leaf 0)))
  revert hflags
  decide +kernel

end Condition

end SingleTable
