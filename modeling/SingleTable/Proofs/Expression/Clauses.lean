import SingleTable.Expression.Handle
import SingleTable.Expression.Update
import SingleTable.Proofs.Condition.Shown

/-!
# The placeholders that updates and projections show

The expression of an update shows what its actions show, clause by clause (`mem_shown_compile_iff`), and a
projection shows what the operands in it show (`mem_shown_projection_iff`). An action on a plain handle shows
the placeholder of its value and nothing else behind the mark of values.
-/

set_option autoImplicit false

namespace SingleTable

variable {mark : Mark}

/-! ## Actions -/

/-- The text of an action shows what its operand shows, and its placeholder if it has a value. -/
theorem mem_shown_action_iff (action : Action) (operand placeholder token : String) :
    token ∈ shown mark (action.text operand placeholder) ↔
      token ∈ shown mark operand ∨ action.value?.isSome = true ∧ token ∈ shown mark placeholder := by
  have hequal : IsGap " = " := by decide +kernel
  have hplus : IsGap " + " := by decide +kernel
  have hminus : IsGap " - " := by decide +kernel
  have hblank : IsGap " " := by decide +kernel
  cases action with
  | set target value =>
    rw [Action.text, String.append_assoc, shown_gap hequal, List.mem_append]
    simp [Action.value?]
  | setIfAbsent target value =>
    rw [Action.text, String.append_assoc, shown_gap hequal, shown_call (by decide +kernel), List.mem_append]
    simp [Action.value?]
  | increment target amount =>
    rw [Action.text, String.append_assoc, shown_gap hplus, String.append_assoc, shown_gap hequal]
    simp [Action.value?]
  | decrement target amount =>
    rw [Action.text, String.append_assoc, shown_gap hminus, String.append_assoc, shown_gap hequal]
    simp [Action.value?]
  | append target items =>
    rw [Action.text, String.append_assoc, shown_gap hequal, shown_call (by decide +kernel), List.mem_append]
    simp [Action.value?]
  | remove target => simp [Action.text, Action.value?]
  | add target value =>
    rw [Action.text, String.append_assoc, shown_gap hblank, List.mem_append]
    simp [Action.value?]
  | delete target subset =>
    rw [Action.text, String.append_assoc, shown_gap hblank, List.mem_append]
    simp [Action.value?]

namespace RecordedAction

variable {entry : RecordedAction} {placeholder : String}

/-- A recorded action on a plain handle shows the names of its operand. -/
theorem mem_shown_name_iff (h : entry.action.target.IsPlain) {token : String} :
    token ∈ shown .name entry.text ↔ token ∈ shown .name entry.action.target.operand.text := by
  have hempty : IsPlainText "" := by decide +kernel
  rw [text, mem_shown_action_iff, RecordedAction.placeholder,
    (shown_valuePlaceholder h.name.chars hempty entry.number).1]
  simp

/-- A recorded action on a plain handle shows the placeholder of its value. -/
theorem mem_valueTokens_iff (h : entry.action.target.IsPlain) :
    placeholder ∈ valueTokens entry.text ↔ ∃ value, (placeholder, value) ∈ entry.bound := by
  have hempty : IsPlainText "" := by decide +kernel
  rw [valueTokens, text, mem_shown_action_iff, h.shown_value_operand, RecordedAction.placeholder,
    (shown_valuePlaceholder h.name.chars hempty entry.number).2, bound]
  cases entry.action.value? with
  | none => simp
  | some value => simp [RecordedAction.placeholder]

end RecordedAction

/-! ## Updates -/

theorem Clause.mem_inOrder (clause : Clause) : clause ∈ inOrder := by
  cases clause <;> decide

namespace ChangeSet

variable {changes : ChangeSet}

/-- A clause shows what its actions show. -/
theorem shown_clauseText (changes : ChangeSet) (clause : Clause) :
    shown mark (changes.clauseText clause) =
      (changes.entries.filter (·.action.clause = clause)).flatMap fun entry => shown mark entry.text := by
  have hcomma : IsGap ", " := by decide +kernel
  have hword : IsUnmarked (clause.word ++ " ") := by cases clause <;> decide +kernel
  rw [clauseText]
  split
  -- A clause without actions has no text.
  · rename_i hnil
    rw [hnil, shown_empty, List.flatMap_nil]
  · rw [shown_unmarked_append hword, shown_intercalate hcomma, List.flatMap_map]

/-- **An update shows what its actions show.** -/
theorem mem_shown_compile_iff (changes : ChangeSet) (token : String) :
    token ∈ shown mark changes.compile.text ↔ ∃ entry ∈ changes.entries, token ∈ shown mark entry.text := by
  have hblank : IsGap " " := by decide +kernel
  rw [compile, shown_intercalate hblank, List.mem_flatMap]
  constructor
  · rintro ⟨text, htext, htoken⟩
    -- Each text is that of a clause.
    obtain ⟨clause, -, rfl⟩ := List.mem_map.1 (List.mem_of_mem_filter htext)
    rw [shown_clauseText, List.mem_flatMap] at htoken
    obtain ⟨entry, hentry, htoken⟩ := htoken
    exact ⟨entry, List.mem_of_mem_filter hentry, htoken⟩
  · rintro ⟨entry, hentry, htoken⟩
    have hclause : token ∈ shown mark (changes.clauseText entry.action.clause) := by
      rw [shown_clauseText, List.mem_flatMap]
      exact ⟨entry, List.mem_filter.2 ⟨hentry, by simp⟩, htoken⟩
    refine ⟨_, List.mem_filter.2 ⟨List.mem_map_of_mem (Clause.mem_inOrder _), ?_⟩, hclause⟩
    -- A clause that shows something is not left out.
    cases hempty : (changes.clauseText entry.action.clause).isEmpty with
    | false => rfl
    | true =>
      rw [String.isEmpty_iff.1 hempty, shown_empty] at hclause
      cases hclause

end ChangeSet

/-! ## Projections -/

/-- **A projection shows what its operands show.** -/
theorem mem_shown_projection_iff (handles : List Handle) (token : String) :
    token ∈ shown mark (projection handles).text ↔
      ∃ handle ∈ handles, token ∈ shown mark handle.operand.text := by
  have hcomma : IsGap ", " := by decide +kernel
  rw [projection, shown_intercalate hcomma, List.mem_flatMap]
  -- An operand that comes again is left out, but the first one is there to show its placeholders.
  simp only [List.mem_eraseDups, List.map_map, List.mem_map, Function.comp_apply, exists_exists_and_eq_and]

end SingleTable
