import SingleTable.Proofs.Condition.Grammar
import SingleTable.Proofs.Condition.Minting
import SingleTable.Proofs.Condition.TestText
import SingleTable.Proofs.Expression.Plain

/-!
# Texts of leaves

The texts that operators render for plain handles. Such a text may have parentheses, commas and even the word
AND in it, but its parentheses are balanced, and it starts with the mark of a name or with the name of a
function, so a parser does not mistake it for a negation or a join (`IsLeafText.atomic`).
-/

set_option autoImplicit false

namespace SingleTable

/-- The leaves that operators make of plain handles. -/
def IsPlainLeaf (leaf : Leaf) : Prop :=
  ∃ test : Test, ∃ next, test.target.IsPlain ∧ leaf = test.leaf next

/-- The texts that operators render for plain handles. -/
def IsLeafText (text : String) : Prop :=
  ∃ test : Test, ∃ next, test.target.IsPlain ∧ test.isVoid = false ∧ text = (test.leaf next).text

/-! ## Placeholders -/

/-- The part that a value plays in a test is plain. -/
theorem plain_role {test : Test} {role : String} {value : Value} (h : (role, value) ∈ test.operands) :
    IsPlainText role := by
  cases test with
  | compare comparison target value =>
    cases List.mem_singleton.1 h
    decide +kernel
  | between target low high =>
    rcases List.mem_cons.1 h with heq | h
    · cases heq
      decide +kernel
    · cases List.mem_singleton.1 h
      decide +kernel
  | beginsWith target start =>
    cases List.mem_singleton.1 h
    decide +kernel
  | contains target part =>
    cases List.mem_singleton.1 h
    decide +kernel
  | present target => cases h
  | absent target => cases h
  | hasType target kind =>
    cases List.mem_singleton.1 h
    decide +kernel
  | oneOf target values =>
    obtain ⟨i, _, heq⟩ := List.mem_mapIdx.1 h
    have hin : IsPlainText "_in" := by decide +kernel
    rw [← (Prod.mk.inj heq).1]
    exact hin.append (plain_toString i)
  | size comparison target bound =>
    cases List.mem_singleton.1 h
    decide +kernel

/-- The placeholders of a test on a plain name have no parentheses. -/
theorem flat_of_mem_bound {test : Test} (h : IsPlainName test.target.name) {next : Nat}
    {placeholder : String} (hmem : placeholder ∈ (test.bound next).map Prod.fst) : IsFlat placeholder := by
  obtain ⟨⟨_, value⟩, hbound, rfl⟩ := List.mem_map.1 hmem
  obtain ⟨i, role, hget, heq⟩ := mem_bound_iff.1 hbound
  have hmark : IsFlat ":" := by decide +kernel
  have hunderscore : IsFlat "_" := by decide +kernel
  have hrole := plain_role (List.mem_of_getElem? hget)
  dsimp only at heq ⊢
  rw [heq, valuePlaceholder]
  exact (((hmark.append h.flat).append hrole.flat).append hunderscore).append (plain_toString _).flat

/-! ## Texts of tests -/

section Texts

variable {operand : String} {placeholders : List String}

theorem flat_list (h : ∀ part ∈ placeholders, IsFlat part) : IsFlat (", ".intercalate placeholders) := by
  have hcomma : IsFlat ", " := by decide +kernel
  exact hcomma.intercalate h

/-- A text in parentheses behind a text without any is balanced. -/
theorem balanced_call {function : String} (hfunction : IsFlat function) {arguments : List String}
    (h : ∀ argument ∈ arguments, IsFlat argument) : Balanced (Test.call function arguments).toList := by
  have hinside := (flat_list h).balanced.parenthesised
  rw [Test.call, String.append_assoc, String.append_assoc, String.toList_append, String.toList_append,
    String.toList_append]
  exact hfunction.balanced.append hinside

theorem flat_sign (comparison : Comparison) : IsFlat (" " ++ comparison.sign ++ " ") := by
  cases comparison <;> decide +kernel

/-- A call starts with the name of its function. -/
theorem head?_call {function : String} {c : Char} (h : function.toList.head? = some c)
    (arguments : List String) : (Test.call function arguments).toList.head? = some c := by
  rw [Test.call, String.append_assoc, String.append_assoc]
  exact head?_append h _

/-- The text of a test on an operand is atomic, if operand and placeholders have no parentheses. -/
theorem isAtomic_text (test : Test) (hoperand : IsFlat operand)
    (hhead : operand.toList.head? = some '#') (h : ∀ part ∈ placeholders, IsFlat part) :
    IsAtomic (test.text operand placeholders) := by
  -- Functions take the operand as their first argument, or as their only one.
  have harguments : ∀ part ∈ operand :: placeholders, IsFlat part := by
    intro part hpart
    rcases List.mem_cons.1 hpart with rfl | hpart
    · exact hoperand
    · exact h part hpart
  have hsingle : ∀ part ∈ [operand], IsFlat part := fun part hpart => by
    rwa [List.mem_singleton.1 hpart]
  cases test with
  | compare comparison target value =>
    rw [Test.text, append_sign]
    have hflat := hoperand.append ((flat_sign comparison).append (flat_list h))
    exact ⟨hflat.balanced, '#', head?_append hhead _, by decide, by decide⟩
  | between target low high =>
    have hbetween : IsFlat " BETWEEN " := by decide +kernel
    have hand : IsFlat " AND " := by decide +kernel
    rw [Test.text, String.append_assoc]
    have hflat := hoperand.append (hbetween.append (hand.intercalate h))
    exact ⟨hflat.balanced, '#', head?_append hhead _, by decide, by decide⟩
  | beginsWith target start =>
    have hname : IsFlat "begins_with" := by decide +kernel
    exact ⟨balanced_call hname harguments, 'b', head?_call (by decide +kernel) _, by decide, by decide⟩
  | contains target part =>
    have hname : IsFlat "contains" := by decide +kernel
    exact ⟨balanced_call hname harguments, 'c', head?_call (by decide +kernel) _, by decide, by decide⟩
  | present target =>
    have hname : IsFlat "attribute_exists" := by decide +kernel
    exact ⟨balanced_call hname hsingle, 'a', head?_call (by decide +kernel) _, by decide, by decide⟩
  | absent target =>
    have hname : IsFlat "attribute_not_exists" := by decide +kernel
    exact ⟨balanced_call hname hsingle, 'a', head?_call (by decide +kernel) _, by decide, by decide⟩
  | hasType target kind =>
    have hname : IsFlat "attribute_type" := by decide +kernel
    exact ⟨balanced_call hname harguments, 'a', head?_call (by decide +kernel) _, by decide, by decide⟩
  | oneOf target values =>
    have hin : IsFlat " IN " := by decide +kernel
    -- A choice is written like a call of the operand with a word behind it.
    have hcall : (Test.oneOf target values).text operand placeholders =
        Test.call (operand ++ " IN ") placeholders := by
      have hopen : operand ++ " IN " ++ "(" = operand ++ " IN (" := String.append_assoc
      rw [Test.text, Test.call, hopen]
    rw [hcall]
    exact ⟨balanced_call (hoperand.append hin) h, '#', head?_call (head?_append hhead _) _, by decide,
      by decide⟩
  | size comparison target bound =>
    have hname : IsFlat "size" := by decide +kernel
    rw [Test.text, append_sign]
    constructor
    -- The parentheses of the call are closed before the comparison.
    · rw [String.toList_append]
      exact (balanced_call hname hsingle).append ((flat_sign comparison).append (flat_list h)).balanced
    · exact ⟨'s', head?_append (head?_call (by decide +kernel) _) _, by decide, by decide⟩

end Texts

/-- **Leaf texts are atomic.** -/
theorem IsLeafText.atomic {text : String} (h : IsLeafText text) : IsAtomic text := by
  obtain ⟨test, next, hplain, hvoid, rfl⟩ := h
  rw [text_leaf hvoid]
  exact isAtomic_text test hplain.flat_operand (head?_operand test.target)
    fun part hpart => flat_of_mem_bound hplain.name hpart

/-- The text of a plain leaf is a leaf text, unless it is empty. -/
theorem IsPlainLeaf.isLeafText {leaf : Leaf} (h : IsPlainLeaf leaf) (hne : leaf.text ≠ "") :
    IsLeafText leaf.text := by
  obtain ⟨test, next, hplain, rfl⟩ := h
  refine ⟨test, next, hplain, ?_, rfl⟩
  cases hvoid : test.isVoid with
  | false => rfl
  | true =>
    rw [Test.leaf, hvoid] at hne
    exact absurd rfl hne

end SingleTable
