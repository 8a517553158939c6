import SingleTable.Condition.Test
import SingleTable.Proofs.Expression.Tokens

/-!
# Renaming in the text of a test

The text of a test consists of its operand and its placeholders, kept apart by texts that no token reaches
into. So a token is renamed in the text by renaming it in the operand and in each placeholder
(`renameToken_text`); nothing else of the text changes.
-/

set_option autoImplicit false

namespace SingleTable

/-! ## Separators -/

/-- A text that ends every token before it and in which no token starts. -/
def IsSeparator (text : String) : Prop :=
  text.toList.head?.any (fun c => !isTokenChar c) = true ∧ '#' ∉ text.toList

instance (text : String) : Decidable (IsSeparator text) :=
  inferInstanceAs (Decidable (_ ∧ _))

section Separators

variable {old new separator : String}

theorem IsSeparator.stops (h : IsSeparator separator) (back : String) : Stops (separator ++ back).toList := by
  intro c hc
  rw [String.toList_append] at hc
  obtain ⟨hhead, -⟩ := h
  cases hlist : separator.toList with
  | nil => rw [hlist] at hhead; cases hhead
  | cons first rest =>
    rw [hlist] at hhead hc
    cases hc
    exact Bool.not_eq_true' _ ▸ hhead

theorem renameToken_empty : renameToken "" old new = "" := by
  rw [renameToken, String.toList_empty, pieces, List.flatMap_nil, String.ofList_nil]

theorem renameToken_separator (h : IsSeparator separator) (front back : String) :
    renameToken (front ++ (separator ++ back)) old new =
      renameToken front old new ++ (separator ++ renameToken back old new) := by
  rw [renameToken_append (h.stops back), renameToken_append_of_no_mark h.2]

theorem renameToken_end (h : IsSeparator separator) (front : String) :
    renameToken (front ++ separator) old new = renameToken front old new ++ separator := by
  have hempty : renameToken (front ++ (separator ++ "")) old new = _ := renameToken_separator h front ""
  rwa [renameToken_empty, String.append_empty] at hempty

theorem renameToken_intercalate (h : IsSeparator separator) (parts : List String) :
    renameToken (separator.intercalate parts) old new =
      separator.intercalate (parts.map fun part => renameToken part old new) := by
  induction parts with
  | nil => exact renameToken_empty
  | cons part rest ih =>
    cases rest with
    | nil => rw [List.map_cons, List.map_nil, String.intercalate_singleton, String.intercalate_singleton]
    | cons next rest =>
      rw [List.map_cons, List.map_cons, String.intercalate_cons_cons, String.intercalate_cons_cons,
        String.append_assoc, renameToken_separator h, ih, List.map_cons, String.append_assoc]

end Separators

/-! ## Texts of tests -/

section Texts

variable {old new : String}

theorem isSeparator_sign (comparison : Comparison) : IsSeparator (" " ++ comparison.sign ++ " ") := by
  cases comparison <;> decide +kernel

theorem renameToken_call {function : String} (h : '#' ∉ function.toList) (arguments : List String) :
    renameToken (Test.call function arguments) old new =
      Test.call function (arguments.map fun argument => renameToken argument old new) := by
  have hopen : '#' ∉ (function ++ "(").toList := by
    rw [String.toList_append, List.mem_append]
    rintro (hmem | hmem)
    · exact h hmem
    · exact absurd hmem (by decide +kernel)
  rw [Test.call, Test.call, String.append_assoc, renameToken_append_of_no_mark hopen,
    renameToken_end (by decide +kernel), renameToken_intercalate (by decide +kernel), ← String.append_assoc]

/-- The sign of a comparison with its blanks is one separator. -/
theorem append_sign (front sign back : String) :
    front ++ " " ++ sign ++ " " ++ back = front ++ (" " ++ sign ++ " " ++ back) := by
  rw [String.append_assoc, String.append_assoc, String.append_assoc, String.append_assoc,
    String.append_assoc]

/-- A token is renamed in the text of a test by renaming it in the operand and in the placeholders. -/
theorem renameToken_text (test : Test) (operand : String) (placeholders : List String) :
    renameToken (test.text operand placeholders) old new =
      test.text (renameToken operand old new)
        (placeholders.map fun placeholder => renameToken placeholder old new) := by
  have hcomma : IsSeparator ", " := by decide +kernel
  cases test with
  | compare comparison target value =>
    rw [Test.text, append_sign, renameToken_separator (isSeparator_sign comparison),
      renameToken_intercalate hcomma, ← append_sign]
    rfl
  | between target low high =>
    have hbetween : IsSeparator " BETWEEN " := by decide +kernel
    have hand : IsSeparator " AND " := by decide +kernel
    rw [Test.text, String.append_assoc, renameToken_separator hbetween, renameToken_intercalate hand,
      ← String.append_assoc]
    rfl
  | beginsWith target start => exact renameToken_call (by decide +kernel) _
  | contains target part => exact renameToken_call (by decide +kernel) _
  | present target => exact renameToken_call (by decide +kernel) _
  | absent target => exact renameToken_call (by decide +kernel) _
  | hasType target kind => exact renameToken_call (by decide +kernel) _
  | oneOf target values =>
    have hopen : IsSeparator " IN (" := by decide +kernel
    have hclose : IsSeparator ")" := by decide +kernel
    rw [Test.text, String.append_assoc, String.append_assoc, renameToken_separator hopen,
      renameToken_end hclose, renameToken_intercalate hcomma, ← String.append_assoc, ← String.append_assoc]
    rfl
  | size comparison target bound =>
    rw [Test.text, append_sign, renameToken_separator (isSeparator_sign comparison),
      renameToken_call (by decide +kernel), renameToken_intercalate hcomma, ← append_sign]
    rfl

end Texts

end SingleTable
