import SingleTable.Proofs.Condition.Built
import SingleTable.Proofs.Condition.LeafText

/-!
# What the text of a condition means

The text of a condition read by the grammar of condition texts. Leaves without text and groups without
children drop out of a condition, together with their negations. What is left is a formula, and the compiler
writes this formula: it leaves out the parentheses of a single operand, but no others
(`Condition.spells_formula`). As the grammar is unambiguous, a reader of the text finds the truth value of the
condition (`Condition.text_means`).
-/

set_option autoImplicit false

namespace SingleTable

/-! ## Truth -/

/-- The truth value of joined operands. -/
def Joiner.holds : Joiner → List Bool → Bool
  | and, values => values.all id
  | or, values => values.any id

namespace Formula

mutual

/-- The truth value of a formula, given that of each leaf text. -/
def truth (assigned : String → Bool) : Formula → Bool
  | .leaf text => assigned text
  | .not operand => !truth assigned operand
  | .join joiner operands => joiner.holds (truths assigned operands)

/-- The truth values of a list of formulas. -/
def truths (assigned : String → Bool) : List Formula → List Bool
  | [] => []
  | operand :: rest => truth assigned operand :: truths assigned rest

end

/-- The formula that joins operands. A single operand stands for itself, and no operands have none. -/
def joined? (joiner : Joiner) : List Formula → Option Formula
  | [] => none
  | [operand] => some operand
  | operands => some (.join joiner operands)

/-- The negation of a formula, if it is negated. -/
def negatedIf (negated : Bool) (formula : Formula) : Formula :=
  if negated then .not formula else formula

end Formula

namespace Condition

mutual

/-- The truth value of a condition, given that of each leaf text. A leaf without text has none, nor has a group
none of whose children has one; a group is about its other children only. -/
def truth? (assigned : String → Bool) : Condition → Option Bool
  | .leaf test => if test.text.isEmpty then none else some (test.negated ^^ assigned test.text)
  | .group joiner children negated =>
    match truths assigned children with
    | [] => none
    | values => some (negated ^^ joiner.holds values)

/-- The truth values of those of a list of conditions that have one. -/
def truths (assigned : String → Bool) : List Condition → List Bool
  | [] => []
  | child :: rest => (truth? assigned child).toList ++ truths assigned rest

end

mutual

/-- The formula that a condition comes to, if anything of it is left. -/
def formula? : Condition → Option Formula
  | .leaf test => if test.text.isEmpty then none else some (.negatedIf test.negated (.leaf test.text))
  | .group joiner children negated => (Formula.joined? joiner (formulas children)).map (.negatedIf negated)

/-- The formulas that are left of a list of conditions. -/
def formulas : List Condition → List Formula
  | [] => []
  | child :: rest => (formula? child).toList ++ formulas rest

end

/-! ## Dropped parts -/

theorem joined?_eq_none_iff {joiner : Joiner} {operands : List Formula} :
    Formula.joined? joiner operands = none ↔ operands = [] := by
  match operands with
  | [] => exact ⟨fun _ => rfl, fun _ => rfl⟩
  | [operand] => exact ⟨nofun, nofun⟩
  | first :: second :: rest => exact ⟨nofun, nofun⟩

mutual

/-- Nothing is left of a condition exactly if none of its leaves has a text. -/
theorem formula?_eq_none_iff (condition : Condition) :
    condition.formula? = none ↔ ∀ leaf ∈ condition.leaves, leaf.text = "" := by
  cases condition with
  | leaf test =>
    rw [formula?, leaves]
    by_cases hempty : test.text.isEmpty = true
    · rw [if_pos hempty]
      simpa using String.isEmpty_iff.1 hempty
    · rw [if_neg hempty]
      simpa using hempty
  | group joiner children negated =>
    rw [formula?, Option.map_eq_none_iff, joined?_eq_none_iff, leaves]
    exact formulas_eq_nil_iff children

/-- Nothing is left of a list of conditions exactly if none of their leaves has a text. -/
theorem formulas_eq_nil_iff (conditions : List Condition) :
    formulas conditions = [] ↔ ∀ leaf ∈ leavesOfAll conditions, leaf.text = "" := by
  cases conditions with
  | nil => exact ⟨fun _ => nofun, fun _ => rfl⟩
  | cons child rest =>
    rw [formulas, List.append_eq_nil_iff, Option.toList_eq_nil_iff, formula?_eq_none_iff child,
      formulas_eq_nil_iff rest, leavesOfAll, List.forall_mem_append]

end

/-! ## The compiler writes the formula -/

/-- What a condition comes to is written by a text: a formula with some text, or nothing by no text. -/
def Spells (text : String) : Option Formula → Prop
  | none => text = ""
  | some formula => text = formula.text ∧ formula.text ≠ ""

theorem ne_empty_of_head? {text : String} {c : Char} (h : text.toList.head? = some c) : text ≠ "" := by
  rintro rfl
  cases h

theorem spells_negatedIf {text : String} {formula : Formula} (h : Spells text (some formula))
    (negated : Bool) : Spells (negatedText negated text) (some (.negatedIf negated formula)) := by
  obtain ⟨rfl, hne⟩ := h
  cases negated with
  | false => exact ⟨rfl, hne⟩
  | true =>
    have hempty : formula.text.isEmpty = false := by simpa using hne
    have hopen : "NOT (" ++ formula.text ++ ")" = "NOT " ++ parenthesised formula.text := by
      rw [parenthesised, ← String.append_assoc, ← String.append_assoc]
      rfl
    constructor
    · rw [negatedText, hempty, Formula.negatedIf, if_pos rfl, Formula.text]
      exact hopen
    · exact ne_empty_of_head? (Formula.head?_not formula)

/-- Joined texts write the joined formula. -/
theorem spells_joined {operands : List Formula} (hne : ∀ operand ∈ operands, operand.text ≠ "")
    (joiner : Joiner) : Spells (joinedText joiner (Formula.texts operands)) (Formula.joined? joiner operands) := by
  match operands with
  | [] => rfl
  | [operand] => exact ⟨rfl, hne operand List.mem_cons_self⟩
  | first :: second :: rest =>
    constructor
    · rw [Formula.text, Formula.texts, Formula.texts]
      rfl
    · exact ne_empty_of_head? (Formula.head?_join (Nat.le_add_left 2 rest.length))

mutual

/-- The text of a condition writes its formula. -/
theorem spells_formula (condition : Condition) : Spells condition.text condition.formula? := by
  cases condition with
  | leaf test =>
    rw [text, formula?]
    by_cases hempty : test.text.isEmpty = true
    · rw [if_pos hempty, negatedText, hempty, Bool.not_true, Bool.and_false]
      exact String.isEmpty_iff.1 hempty
    · rw [if_neg hempty]
      have hleaf : Spells test.text (some (.leaf test.text)) :=
        ⟨rfl, fun hnil => hempty (String.isEmpty_iff.2 hnil)⟩
      exact spells_negatedIf hleaf test.negated
  | group joiner children negated =>
    obtain ⟨htexts, hne⟩ := texts_eq_formulas children
    have hjoined := spells_joined hne joiner
    rw [text, formula?, htexts]
    cases hformula : Formula.joined? joiner (formulas children) with
    | none =>
      -- No text is negated, so the negation drops out with the group.
      rw [hformula] at hjoined
      rw [show joinedText joiner (Formula.texts (formulas children)) = "" from hjoined]
      cases negated <;> rfl
    | some formula =>
      rw [hformula] at hjoined
      exact spells_negatedIf hjoined negated

/-- The texts of a list of conditions write their formulas. -/
theorem texts_eq_formulas (conditions : List Condition) :
    texts conditions = Formula.texts (formulas conditions) ∧
      ∀ formula ∈ formulas conditions, formula.text ≠ "" := by
  cases conditions with
  | nil => exact ⟨rfl, fun formula hformula => by cases hformula⟩
  | cons child rest =>
    have hchild := spells_formula child
    obtain ⟨htexts, hne⟩ := texts_eq_formulas rest
    rw [texts, formulas]
    -- A child of which nothing is left has no text, so the compiler skips it as well.
    cases hformula : child.formula? with
    | none =>
      rw [hformula] at hchild
      have hempty : child.text.isEmpty = true := String.isEmpty_iff.2 hchild
      rw [if_pos hempty]
      exact ⟨htexts, hne⟩
    | some formula =>
      rw [hformula] at hchild
      obtain ⟨htext, hnonempty⟩ := hchild
      rw [if_neg (by simpa [htext] using hnonempty), htext, htexts]
      refine ⟨rfl, fun other hother => ?_⟩
      rcases List.mem_cons.1 hother with rfl | hother
      · exact hnonempty
      · exact hne other hother

end

/-! ## Truth of the formula -/

theorem truth_negatedIf (assigned : String → Bool) (negated : Bool) (formula : Formula) :
    (Formula.negatedIf negated formula).truth assigned = (negated ^^ formula.truth assigned) := by
  cases negated with
  | false => rw [Bool.false_xor]; rfl
  | true => rw [Bool.true_xor]; rfl

theorem truth_joined? (assigned : String → Bool) (joiner : Joiner) (negated : Bool)
    (operands : List Formula) :
    ((Formula.joined? joiner operands).map (.negatedIf negated)).map (Formula.truth assigned) =
      match Formula.truths assigned operands with
      | [] => none
      | values => some (negated ^^ joiner.holds values) := by
  match operands with
  | [] => rfl
  | [operand] =>
    have hsingle : joiner.holds [operand.truth assigned] = operand.truth assigned := by
      cases joiner <;> simp [Joiner.holds]
    show some ((Formula.negatedIf negated operand).truth assigned) =
      some (negated ^^ joiner.holds [operand.truth assigned])
    rw [truth_negatedIf, hsingle]
  | first :: second :: rest =>
    show some ((Formula.negatedIf negated (.join joiner (first :: second :: rest))).truth assigned) =
      some (negated ^^ joiner.holds (Formula.truths assigned (first :: second :: rest)))
    rw [truth_negatedIf, Formula.truth]

mutual

/-- The truth value of a condition is that of its formula. -/
theorem truth?_eq (assigned : String → Bool) (condition : Condition) :
    condition.truth? assigned = condition.formula?.map (Formula.truth assigned) := by
  cases condition with
  | leaf test =>
    rw [truth?, formula?]
    split
    · rfl
    · rw [Option.map_some, truth_negatedIf, Formula.truth]
  | group joiner children negated =>
    rw [truth?, formula?, truths_eq assigned children, truth_joined?]

/-- The truth values of a list of conditions are those of their formulas. -/
theorem truths_eq (assigned : String → Bool) (conditions : List Condition) :
    truths assigned conditions = Formula.truths assigned (formulas conditions) := by
  cases conditions with
  | nil => rfl
  | cons child rest =>
    rw [truths, formulas, truth?_eq assigned child, truths_eq assigned rest]
    cases child.formula? with
    | none => rfl
    | some formula => rfl

end

/-! ## The formula is grammatical -/

section Grammatical

variable {isLeafText : String → Prop}

theorem grammatical_negatedIf {formula : Formula} (h : formula.Grammatical isLeafText) (negated : Bool) :
    (Formula.negatedIf negated formula).Grammatical isLeafText := by
  cases negated with
  | false => exact h
  | true => exact .not h

theorem grammatical_joined? {joiner : Joiner} {operands : List Formula} {formula : Formula}
    (h : ∀ operand ∈ operands, operand.Grammatical isLeafText)
    (hjoined : Formula.joined? joiner operands = some formula) : formula.Grammatical isLeafText := by
  match operands with
  | [] => cases hjoined
  | [operand] =>
    cases hjoined
    exact h _ List.mem_cons_self
  | first :: second :: rest =>
    cases hjoined
    exact .join (Nat.le_add_left 2 rest.length) h

mutual

/-- The formula of a condition is grammatical if the texts of its leaves are leaf texts. -/
theorem grammatical_formula? {condition : Condition} {formula : Formula}
    (h : ∀ leaf ∈ condition.leaves, leaf.text ≠ "" → isLeafText leaf.text)
    (hformula : condition.formula? = some formula) : formula.Grammatical isLeafText := by
  cases condition with
  | leaf test =>
    rw [formula?] at hformula
    split at hformula
    · cases hformula
    · rename_i hempty
      cases hformula
      have htext : test.text ≠ "" := fun hnil => hempty (String.isEmpty_iff.2 hnil)
      exact grammatical_negatedIf (.leaf (h test (List.mem_singleton_self test) htext)) test.negated
  | group joiner children negated =>
    rw [formula?, Option.map_eq_some_iff] at hformula
    obtain ⟨joined, hjoined, rfl⟩ := hformula
    exact grammatical_negatedIf (grammatical_joined? (grammatical_formulas h) hjoined) negated

/-- The formulas of a list of conditions are grammatical if the texts of their leaves are leaf texts. -/
theorem grammatical_formulas {conditions : List Condition}
    (h : ∀ leaf ∈ leavesOfAll conditions, leaf.text ≠ "" → isLeafText leaf.text) :
    ∀ formula ∈ formulas conditions, formula.Grammatical isLeafText := by
  cases conditions with
  | nil => exact fun formula hformula => by cases hformula
  | cons child rest =>
    intro formula hformula
    rw [formulas, List.mem_append, Option.mem_toList] at hformula
    rw [leavesOfAll] at h
    rcases hformula with hchild | hrest
    · exact grammatical_formula? (fun leaf hleaf => h leaf (List.mem_append_left _ hleaf)) hchild
    · exact grammatical_formulas (fun leaf hleaf => h leaf (List.mem_append_right _ hleaf)) formula hrest

end

end Grammatical

/-! ## Reading the text -/

/-- **The text means the condition.** Take a condition that is built, to any depth, of leaves that operators
make of plain handles. Its text is empty exactly if all of its parts drop out. Otherwise the text has exactly
one parse by the grammar of condition texts, and this formula has the truth value of the condition whatever
truth values the leaf texts have. -/
theorem text_means {condition : Condition} (h : condition.Built IsPlainLeaf) :
    (condition.compile.text = "" ↔ ∀ leaf ∈ condition.leaves, leaf.text = "") ∧
      (condition.compile.text ≠ "" →
        ∃ formula : Formula, formula.Parses IsLeafText condition.compile.text ∧
          (∀ other : Formula, other.Parses IsLeafText condition.compile.text → other = formula) ∧
          ∀ assigned, condition.truth? assigned = some (formula.truth assigned)) := by
  have hspells := spells_formula condition
  -- Negating a condition changes the flags of its leaves, but not their texts.
  have hleaves : ∀ leaf ∈ condition.leaves, leaf.text ≠ "" → IsLeafText leaf.text := by
    intro leaf hleaf hne
    obtain ⟨origin, horigin, heq⟩ := h.origin hleaf
    have htext : leaf.text = origin.text := by rw [heq]
    rw [htext] at hne ⊢
    exact horigin.isLeafText hne
  rw [← formula?_eq_none_iff]
  cases hformula : condition.formula? with
  | none =>
    rw [hformula] at hspells
    exact ⟨⟨fun _ => rfl, fun _ => hspells⟩, fun hne => absurd hspells hne⟩
  | some formula =>
    rw [hformula] at hspells
    obtain ⟨htext, hne⟩ := hspells
    have hcompile : condition.compile.text = formula.text := htext
    have hgrammatical := grammatical_formula? hleaves hformula
    rw [hcompile]
    refine ⟨⟨fun hnil => absurd hnil hne, nofun⟩, fun _ => ⟨formula, ⟨hgrammatical, rfl⟩, ?_, ?_⟩⟩
    · intro other hother
      exact Formula.unambiguous (fun _ => IsLeafText.atomic) hother.grammatical hgrammatical hother.text_eq
    · intro assigned
      rw [truth?_eq, hformula, Option.map_some]

/-! ### A negated choice with dropped parts -/

/-- Items that are neither of some age nor tagged, written with an empty conjunction and an empty choice. -/
def untagged : Condition :=
  (any [all [], .leaf ((Test.between ⟨"age", none⟩ (.number "1") (.number "2")).leaf 0),
    (Condition.leaf ((Test.oneOf ⟨"kind", none⟩ []).leaf 2)).negate,
    .leaf ((Test.present ⟨"tags", some "meta.tags[0]"⟩).leaf 2)]).negate

theorem untagged_built : untagged.Built IsPlainLeaf := by
  refine .negate (.any fun child hchild => ?_)
  simp only [List.mem_cons, List.not_mem_nil, or_false] at hchild
  obtain rfl | rfl | rfl | rfl := hchild
  · exact .all fun child hchild => by cases hchild
  · exact .leaf ⟨.between ⟨"age", none⟩ _ _, 0, by decide +kernel, rfl⟩
  · exact .negate (.leaf ⟨.oneOf ⟨"kind", none⟩ _, 2, by decide +kernel, rfl⟩)
  · exact .leaf ⟨.present ⟨"tags", some "meta.tags[0]"⟩, 2, by decide +kernel, rfl⟩

/-- The text of the condition has one parse, the negation of a choice between the two leaves with a text. -/
theorem text_means_untagged :
    ∃ formula : Formula,
      formula.Parses IsLeafText
        "NOT ((#age BETWEEN :age_low_0 AND :age_high_1) OR (attribute_exists(#meta.#tags[0])))" ∧
      (∀ other : Formula, other.Parses IsLeafText
        "NOT ((#age BETWEEN :age_low_0 AND :age_high_1) OR (attribute_exists(#meta.#tags[0])))" →
          other = formula) ∧
      ∀ assigned, untagged.truth? assigned = some (formula.truth assigned) := by
  have htext : untagged.compile.text =
      "NOT ((#age BETWEEN :age_low_0 AND :age_high_1) OR (attribute_exists(#meta.#tags[0])))" := by
    decide +kernel
  have hmeans := (text_means untagged_built).2
  rw [htext] at hmeans
  exact hmeans (by decide)

end Condition

end SingleTable
