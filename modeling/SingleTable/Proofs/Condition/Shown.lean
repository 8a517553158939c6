import SingleTable.Condition.Compile
import SingleTable.Proofs.Condition.LeafText
import SingleTable.Proofs.Condition.Maps
import SingleTable.Proofs.Expression.Marks

/-!
# The placeholders that a condition shows

The text of a test shows what its operand and its placeholders show (`shown_text`), and the text of a condition
shows what the texts of its leaves show, in their order (`Condition.shown_text`): nothing that the compiler
writes around them is a placeholder, and what it leaves out shows none. A test on a plain handle shows exactly
the names that its leaf binds and the values that it was minted for.
-/

set_option autoImplicit false

namespace SingleTable

/-! ## Tests -/

section Tests

variable {mark : Mark}

theorem isGap_sign (comparison : Comparison) : IsGap (" " ++ comparison.sign ++ " ") := by
  cases comparison <;> decide +kernel

/-- A call shows what its arguments show. -/
theorem shown_call {function : String} (h : IsUnmarked function) (arguments : List String) :
    shown mark (Test.call function arguments) = arguments.flatMap (shown mark) := by
  have hcomma : IsGap ", " := by decide +kernel
  have hparentheses : shown mark ("(" ++ ", ".intercalate arguments ++ ")") = _ :=
    shown_parentheses (", ".intercalate arguments)
  rw [Test.call, String.append_assoc, String.append_assoc, shown_unmarked_append h, ← String.append_assoc,
    hparentheses, shown_intercalate hcomma]

/-- The text of a test shows what its operand shows, and behind it what its placeholders show. -/
theorem shown_text (test : Test) (operand : String) {placeholders : List String}
    (hlength : placeholders.length = test.operands.length) :
    shown mark (test.text operand placeholders) =
      shown mark operand ++ placeholders.flatMap (shown mark) := by
  have hcomma : IsGap ", " := by decide +kernel
  cases test with
  | compare comparison target value =>
    rw [Test.text, append_sign, shown_gap (isGap_sign comparison), shown_intercalate hcomma]
  | between target low high =>
    have hbetween : IsGap " BETWEEN " := by decide +kernel
    have hand : IsGap " AND " := by decide +kernel
    rw [Test.text, String.append_assoc, shown_gap hbetween, shown_intercalate hand]
  | beginsWith target start => exact shown_call (by decide +kernel) _
  | contains target part => exact shown_call (by decide +kernel) _
  -- A test without values has no placeholders.
  | present target =>
    rw [List.eq_nil_of_length_eq_zero hlength]
    exact shown_call (by decide +kernel) _
  | absent target =>
    rw [List.eq_nil_of_length_eq_zero hlength]
    exact shown_call (by decide +kernel) _
  | hasType target kind => exact shown_call (by decide +kernel) _
  | oneOf target values =>
    have hopen : IsGap " IN (" := by decide +kernel
    have hclose : IsGap ")" := by decide +kernel
    rw [Test.text, String.append_assoc, String.append_assoc, shown_gap hopen, shown_end hclose,
      shown_intercalate hcomma]
  | size comparison target bound =>
    rw [Test.text, append_sign, shown_gap (isGap_sign comparison), shown_call (by decide +kernel),
      shown_intercalate hcomma, List.flatMap_singleton]

/-- The leaf of a test shows what the operand and the placeholders of the test show. -/
theorem shown_leaf {test : Test} (hvoid : test.isVoid = false) (next : Nat) :
    shown mark (test.leaf next).text =
      shown mark test.target.operand.text ++ ((test.bound next).map Prod.fst).flatMap (shown mark) := by
  rw [text_leaf hvoid, shown_text test _ (by rw [List.length_map, length_bound])]

end Tests

/-! ## Conditions -/

namespace Condition

variable {mark : Mark}

/-- A negation shows what it negates. -/
theorem shown_negatedText (negated : Bool) (text : String) :
    shown mark (negatedText negated text) = shown mark text := by
  have hword : IsUnmarked "NOT " := by decide +kernel
  rw [negatedText]
  split
  · have hopen : "NOT (" ++ text ++ ")" = "NOT " ++ ("(" ++ text ++ ")") := by
      rw [← String.append_assoc, ← String.append_assoc]
      rfl
    rw [hopen, shown_unmarked_append hword, shown_parentheses]
  · rfl

/-- A group shows what the texts in it show. -/
theorem shown_joinedText (joiner : Joiner) (texts : List String) :
    shown mark (joinedText joiner texts) = texts.flatMap (shown mark) := by
  have hseparator : IsGap joiner.separator := by cases joiner <;> decide +kernel
  -- Only of several texts each one stands in parentheses.
  match texts with
  | [] => exact shown_empty
  | [text] => simp [joinedText]
  | first :: second :: rest =>
    have hparentheses : (fun text => shown mark (parenthesised text)) = shown mark :=
      funext fun text => shown_parentheses text
    have hjoined : joinedText joiner (first :: second :: rest) =
      joiner.separator.intercalate ((first :: second :: rest).map parenthesised) := rfl
    rw [hjoined, shown_intercalate hseparator, List.flatMap_map, hparentheses]

mutual

/-- **A condition shows what its leaves show.** -/
theorem shown_text (mark : Mark) (condition : Condition) :
    shown mark condition.text = condition.leaves.flatMap fun leaf => shown mark leaf.text := by
  cases condition with
  | leaf test => rw [text, shown_negatedText, leaves, List.flatMap_singleton]
  | group joiner children negated =>
    rw [text, shown_negatedText, shown_joinedText, shown_texts mark children, leaves]

/-- The texts of a list of conditions show what their leaves show. -/
theorem shown_texts (mark : Mark) (conditions : List Condition) :
    (texts conditions).flatMap (shown mark) =
      (leavesOfAll conditions).flatMap fun leaf => shown mark leaf.text := by
  cases conditions with
  | nil => rfl
  | cons child rest =>
    have hchild := shown_text mark child
    rw [texts, leavesOfAll, List.flatMap_append, ← hchild, ← shown_texts mark rest]
    -- A child without text is left out, and it shows nothing.
    split
    · rename_i hempty
      rw [String.isEmpty_iff.1 hempty, shown_empty, List.nil_append]
    · rw [List.flatMap_cons]

end

end Condition

/-! ## Leaves of plain tests -/

/-- A placeholder that is minted for a plain name is one value token. -/
theorem shown_valuePlaceholder {name role : String} (hname : IsPlainText name) (hrole : IsPlainText role)
    (number : Nat) :
    shown .name (valuePlaceholder name role number) = [] ∧
      shown .value (valuePlaceholder name role number) = [valuePlaceholder name role number] := by
  have hunderscore : IsPlainText "_" := by decide +kernel
  -- Behind the mark there is nothing but one run of token characters.
  have hrun : IsPlainText (name ++ role ++ "_" ++ toString number) :=
    ((hname.append hrole).append hunderscore).append (plain_toString number)
  have hlist : (valuePlaceholder name role number).toList =
      Mark.value.char :: (name ++ role ++ "_" ++ toString number).toList := by
    rw [valuePlaceholder, String.append_assoc, String.append_assoc, String.append_assoc,
      String.toList_append, String.append_assoc, String.append_assoc]
    rfl
  constructor
  · have hmark : Mark.name.char ∉ (valuePlaceholder name role number).toList := by
      rw [hlist, List.mem_cons, not_or]
      exact ⟨by decide, fun hmem => (hrun _ hmem).2.1 rfl⟩
    rw [shown, ← List.append_nil (valuePlaceholder name role number).toList,
      tokensBehind_append_of_no_mark hmark, tokensBehind]
  · have hne : (name ++ role ++ "_" ++ toString number).toList ≠ [] := by simp
    rw [shown, hlist, tokensBehind_run hne fun c hc => (hrun c hc).1, ← hlist, String.ofList_toList]

section Plain

variable {test : Test}

/-- The placeholders of a plain test show no name, and each of them is one value token. -/
theorem shown_bound (h : IsPlainName test.target.name) (next : Nat) :
    ((test.bound next).map Prod.fst).flatMap (shown .name) = [] ∧
      ((test.bound next).map Prod.fst).flatMap (shown .value) = (test.bound next).map Prod.fst := by
  have hshown : ∀ placeholder ∈ (test.bound next).map Prod.fst,
      shown .name placeholder = [] ∧ shown .value placeholder = [placeholder] := by
    intro placeholder hmem
    obtain ⟨⟨_, value⟩, hbound, rfl⟩ := List.mem_map.1 hmem
    obtain ⟨i, role, hget, heq⟩ := mem_bound_iff.1 hbound
    dsimp only at heq ⊢
    rw [heq]
    exact shown_valuePlaceholder h.chars (plain_role (List.mem_of_getElem? hget)) _
  constructor
  · rw [List.flatMap_eq_nil_iff]
    exact fun placeholder hmem => (hshown placeholder hmem).1
  · rw [List.flatMap_congr fun placeholder hmem => (hshown placeholder hmem).2]
    exact List.flatMap_singleton' _

/-- **The leaf of a plain test shows the names that it binds.** -/
theorem get?_names_leaf_iff (h : test.target.IsPlain) {next : Nat} {token name : String} :
    (test.leaf next).names.get? token = some name ↔
      token = nameToken name ∧ token ∈ nameTokens (test.leaf next).text := by
  rw [← shown_name]
  cases hvoid : test.isVoid with
  -- The leaf of a void test has no text, and it names nothing.
  | true =>
    rw [Test.leaf, hvoid, if_pos rfl, shown_empty]
    simp
  | false =>
    rw [shown_leaf hvoid, (shown_bound h.name next).1, List.append_nil, ← h.mem_names_iff, names_leaf hvoid]
    apply Dict.get?_ofList_iff
    intro v w
    exact eq_of_mem_names

/-- The leaf of a plain test shows the placeholders of its values. -/
theorem mem_valueTokens_leaf_iff (h : test.target.IsPlain) {next : Nat} {placeholder : String} :
    placeholder ∈ valueTokens (test.leaf next).text ↔ ∃ value, (placeholder, value) ∈ test.bound next := by
  rw [valueTokens]
  cases hvoid : test.isVoid with
  | true =>
    obtain ⟨target, rfl⟩ := eq_oneOf_of_isVoid hvoid
    rw [Test.leaf, hvoid, if_pos rfl, shown_empty]
    simp [Test.bound, Test.operands]
  | false =>
    rw [shown_leaf hvoid, (shown_bound h.name next).2, h.shown_value_operand, List.nil_append]
    simp

end Plain

end SingleTable
