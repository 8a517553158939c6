import SingleTable.Proofs.Condition.Maps
import SingleTable.Proofs.Condition.Meaning
import SingleTable.Proofs.Request.Reached

/-!
# The conjunction of a chain

The combined condition of a chain is the conjunction of the conditions that were added, whatever they are
(`Chain.combined_is_conjunction`). Splicing the children of a conjunction into the chain, and leaving out the
group around a single conjunct, keeps the leaves and their order, and with them the maps. It also keeps the
meaning: the combined condition is false exactly if one of the added conditions is
(`Chain.truth?_combined_eq_false_iff`), and a condition of which nothing is left is neither true nor false.

How conditions are grouped leaves no trace. Adding conditions that are no conjunctions, or adding the one
conjunction of them, gives the identical combined condition (`Chain.combined_addAll`).
-/

set_option autoImplicit false

namespace SingleTable

namespace Condition

variable {assigned : String → Bool} {condition : Condition} {conditions children : List Condition}

/-! ## Dropped conditions -/

/-- A condition has no text exactly if none of its leaves has one. -/
theorem text_eq_empty_iff : condition.text = "" ↔ ∀ leaf ∈ condition.leaves, leaf.text = "" := by
  have hspells := spells_formula condition
  rw [← formula?_eq_none_iff]
  cases hformula : condition.formula? with
  | none =>
    rw [hformula] at hspells
    simp [show condition.text = "" from hspells]
  | some formula =>
    rw [hformula] at hspells
    simp [hspells.1, hspells.2]

/-- A condition has no truth value exactly if it has no text. -/
theorem truth?_eq_none_iff : condition.truth? assigned = none ↔ condition.text = "" := by
  rw [truth?_eq, Option.map_eq_none_iff, formula?_eq_none_iff, text_eq_empty_iff]

/-- A condition that is not dropped is true exactly if it is not false. -/
theorem truth?_eq_true_iff :
    (condition.text ≠ "" → condition.truth? assigned = some true) ↔
      condition.truth? assigned ≠ some false := by
  have hdropped : condition.truth? assigned = none ↔ condition.text = "" := truth?_eq_none_iff
  cases htruth : condition.truth? assigned with
  | none =>
    rw [htruth] at hdropped
    simp [hdropped.1 rfl]
  | some value =>
    rw [htruth] at hdropped
    have hne : condition.text ≠ "" := fun hnil => by simpa using hdropped.2 hnil
    cases value with
    | false => simp [hne]
    | true => simp

/-- The leaves with a text have leaf texts, if the leaves are made by operators of plain handles. -/
theorem Built.isLeafText (h : condition.Built IsPlainLeaf) {leaf : Leaf} (hleaf : leaf ∈ condition.leaves)
    (hne : leaf.text ≠ "") : IsLeafText leaf.text := by
  -- Negating a condition changes the flags of its leaves, but not their texts.
  obtain ⟨origin, horigin, heq⟩ := h.origin hleaf
  have htext : leaf.text = origin.text := by rw [heq]
  rw [htext] at hne ⊢
  exact horigin.isLeafText hne

/-! ## False conjunctions -/

theorem truths_append (front back : List Condition) :
    truths assigned (front ++ back) = truths assigned front ++ truths assigned back := by
  induction front with
  | nil => rfl
  | cons first rest ih => rw [List.cons_append, truths, truths, ih, List.append_assoc]

theorem truths_singleton : truths assigned [condition] = (condition.truth? assigned).toList := by
  rw [truths, truths, List.append_nil]

/-- A conjunction is false exactly if one of its children is. -/
theorem truth?_all_eq_false_iff :
    (all children).truth? assigned = some false ↔ false ∈ truths assigned children := by
  rw [all, truth?]
  cases htruths : truths assigned children with
  | nil => simp
  | cons value values =>
    have hall : (value :: values).all id = false ↔ false ∈ value :: values := by
      rw [List.all_eq_false]
      simp
    simpa [Joiner.holds] using hall

/-- A condition is false exactly if one of its conjuncts is. -/
theorem truth?_eq_false_iff :
    condition.truth? assigned = some false ↔
      false ∈ truths assigned (condition.conjuncts?.getD [condition]) := by
  have hself : condition.truth? assigned = some false ↔ false ∈ truths assigned [condition] := by
    rw [truths_singleton, Option.mem_toList]
  cases condition with
  | leaf test => exact hself
  | group joiner children negated =>
    cases joiner with
    | or => exact hself
    | and =>
      cases negated with
      | true => exact hself
      | false => exact truth?_all_eq_false_iff

/-- Only a conjunction has conjuncts other than itself. -/
theorem conjuncts?_eq_none (h : ∀ children, condition ≠ all children) : condition.conjuncts? = none := by
  cases condition with
  | leaf test => rfl
  | group joiner children negated =>
    cases joiner with
    | or => rfl
    | and =>
      cases negated with
      | true => rfl
      | false => exact absurd rfl (h children)

end Condition

namespace Chain

variable {chain : Chain} {assigned : String → Bool}

/-! ## Truth -/

theorem false_mem_truths_conjuncts_iff :
    false ∈ Condition.truths assigned chain.conjuncts ↔
      ∃ condition ∈ chain.conditions, condition.truth? assigned = some false := by
  rw [conjuncts]
  induction chain.conditions with
  | nil => simp [Condition.truths]
  | cons condition rest ih =>
    rw [List.flatMap_cons, Condition.truths_append, List.mem_append, ih, ← Condition.truth?_eq_false_iff]
    simp

/-- **The combined condition is false** exactly if a condition that was added is. -/
theorem truth?_combined_eq_false_iff :
    chain.combined.truth? assigned = some false ↔
      ∃ condition ∈ chain.conditions, condition.truth? assigned = some false := by
  rw [← false_mem_truths_conjuncts_iff, combined]
  split
  · rename_i only hconjuncts
    rw [hconjuncts, Condition.truths_singleton, Option.mem_toList]
  · exact Condition.truth?_all_eq_false_iff

/-- Nothing is left of the combined condition exactly if nothing is left of any condition. -/
theorem text_combined_eq_empty_iff :
    chain.combined.text = "" ↔ ∀ condition ∈ chain.conditions, condition.text = "" := by
  simp only [Condition.text_eq_empty_iff, leaves_combined, Condition.mem_leavesOfAll_iff]
  constructor
  · intro h condition hcondition leaf hleaf
    exact h leaf ⟨condition, hcondition, hleaf⟩
  · rintro h leaf ⟨condition, hcondition, hleaf⟩
    exact h condition hcondition leaf hleaf

/-! ## Maps -/

/-- The maps of the combined condition are those of the conditions, merged in the order in which they were
added. -/
theorem maps_compile (chain : Chain) :
    chain.compile.names = ((chain.conditions.map Condition.compile).foldl Fragment.merge {}).names ∧
      chain.compile.values = ((chain.conditions.map Condition.compile).foldl Fragment.merge {}).values := by
  rw [Condition.merge_compiled, compile, Condition.compile, leaves_combined]
  exact ⟨(Dict.empty_extend _).symm, (Dict.empty_extend _).symm⟩

/-! ## Grouping -/

/-- The chain after conditions were added in order. -/
def addAll (chain : Chain) (conditions : List Condition) : Chain := conditions.foldl add chain

theorem conditions_addAll (chain : Chain) (conditions : List Condition) :
    (chain.addAll conditions).conditions = chain.conditions ++ conditions := by
  induction conditions generalizing chain with
  | nil => simp [addAll]
  | cons condition rest ih =>
    rw [addAll, List.foldl_cons, ← addAll, ih, add, List.append_assoc]
    rfl

/-- Conditions that are no conjunctions are conjuncts of the chain themselves. -/
theorem flatMap_conjuncts {group : List Condition} (h : ∀ children, Condition.all children ∉ group) :
    (group.flatMap fun condition => condition.conjuncts?.getD [condition]) = group := by
  induction group with
  | nil => rfl
  | cons condition rest ih =>
    have hcondition : ∀ children, condition ≠ .all children := by
      rintro children rfl
      exact h children List.mem_cons_self
    have hrest : ∀ children, Condition.all children ∉ rest :=
      fun children hmem => h children (List.mem_cons_of_mem _ hmem)
    rw [List.flatMap_cons, Condition.conjuncts?_eq_none hcondition, ih hrest]
    rfl

/-- **Grouping leaves no trace.** Adding the conjunction of some conditions that are no conjunctions is the
same as adding the conditions, whatever else is added before and after them. -/
theorem combined_addAll {group : List Condition} (h : ∀ children, Condition.all children ∉ group)
    (chain : Chain) (back : List Condition) :
    ((chain.addAll group).addAll back).combined = ((chain.add (.all group)).addAll back).combined := by
  have hconjuncts : ((chain.addAll group).addAll back).conjuncts =
      ((chain.add (.all group)).addAll back).conjuncts := by
    simp only [conjuncts, conditions_addAll, add, List.flatMap_append, flatMap_conjuncts h]
    rw [List.flatMap_singleton]
    rfl
  rw [combined, combined, hconjuncts]

/-! ## Conjunctions -/

section Formula

variable {formula : Formula}

/-- A formula of the combined condition has its text. -/
theorem text_of_formula? (h : chain.combined.formula? = some formula) :
    formula.text = chain.compile.text := by
  have hspells := Condition.spells_formula chain.combined
  rw [h] at hspells
  exact hspells.1.symm

/-- The combined condition has a formula if it has a text. -/
theorem exists_formula? (hne : chain.compile.text ≠ "") :
    ∃ formula, chain.combined.formula? = some formula := by
  have hspells := Condition.spells_formula chain.combined
  cases hformula : chain.combined.formula? with
  | none =>
    rw [hformula] at hspells
    exact absurd hspells hne
  | some formula => exact ⟨formula, rfl⟩

/-- The formula of the combined condition is true exactly if all conditions with a text are. -/
theorem truth_of_formula?_iff (h : chain.combined.formula? = some formula) (assigned : String → Bool) :
    formula.truth assigned = true ↔
      ∀ condition ∈ chain.conditions, condition.text ≠ "" → condition.truth? assigned = some true := by
  have hfalse : formula.truth assigned = false ↔
      ∃ condition ∈ chain.conditions, condition.truth? assigned = some false := by
    rw [← truth?_combined_eq_false_iff, Condition.truth?_eq, h, Option.map_some, Option.some.injEq]
  simp only [Condition.truth?_eq_true_iff]
  rw [← Bool.not_eq_false, hfalse]
  simp

/-- A text that is made by operators of plain handles is parsed as its formula only. -/
theorem parses_iff_of_formula? (h : chain.combined.formula? = some formula)
    (hbuilt : ∀ condition ∈ chain.conditions, condition.Built IsPlainLeaf) (other : Formula) :
    other.Parses IsLeafText chain.compile.text ↔ other = formula := by
  have hleaves : ∀ leaf ∈ chain.combined.leaves, leaf.text ≠ "" → IsLeafText leaf.text := by
    intro leaf hleaf hleafText
    rw [leaves_combined] at hleaf
    obtain ⟨condition, hcondition, hmem⟩ := Condition.mem_leavesOfAll_iff.1 hleaf
    exact (hbuilt condition hcondition).isLeafText hmem hleafText
  have hgrammatical := Condition.grammatical_formula? hleaves h
  constructor
  · intro hother
    exact Formula.unambiguous (fun _ => IsLeafText.atomic) hother.grammatical hgrammatical
      (hother.text_eq.trans (text_of_formula? h).symm)
  · rintro rfl
    exact ⟨hgrammatical, text_of_formula? h⟩

end Formula

/-- **The combined condition is the conjunction of the conditions that were added.** It has their leaves in
order and their maps, merged in order. It has no text exactly if none of them has one. Otherwise its text is
that of a formula over the texts of the leaves, and the formula is true exactly if all those conditions are
that have a text, whatever truth values the leaf texts have. If the leaves are made by operators of plain
handles, the text has no other parse. It does not matter whether conditions that are no conjunctions are added
one by one or as one conjunction. -/
theorem combined_is_conjunction (chain : Chain) :
    chain.combined.leaves = Condition.leavesOfAll chain.conditions ∧
    (chain.compile.names = ((chain.conditions.map Condition.compile).foldl Fragment.merge {}).names ∧
      chain.compile.values = ((chain.conditions.map Condition.compile).foldl Fragment.merge {}).values) ∧
    (chain.compile.text = "" ↔ ∀ condition ∈ chain.conditions, condition.compile.text = "") ∧
    (chain.compile.text ≠ "" → ∃ formula : Formula,
      formula.Parses (fun text => ∃ leaf ∈ chain.combined.leaves, leaf.text = text) chain.compile.text ∧
      (∀ assigned, formula.truth assigned = true ↔
        ∀ condition ∈ chain.conditions, condition.compile.text ≠ "" →
          condition.truth? assigned = some true) ∧
      ((∀ condition ∈ chain.conditions, condition.Built IsPlainLeaf) →
        ∀ other : Formula, other.Parses IsLeafText chain.compile.text ↔ other = formula)) ∧
    ∀ group back : List Condition, (∀ children, Condition.all children ∉ group) →
      ((chain.addAll group).addAll back).combined = ((chain.add (.all group)).addAll back).combined := by
  refine ⟨leaves_combined chain, maps_compile chain, text_combined_eq_empty_iff, ?_, ?_⟩
  · intro hne
    obtain ⟨formula, hformula⟩ := exists_formula? hne
    refine ⟨formula, ⟨?_, text_of_formula? hformula⟩, ?_, ?_⟩
    · exact Condition.grammatical_formula? (fun leaf hleaf _ => ⟨leaf, hleaf, rfl⟩) hformula
    · exact truth_of_formula?_iff hformula
    · exact parses_iff_of_formula? hformula
  · intro group back hgroup
    exact combined_addAll hgroup chain back

/-! ### A guarded change -/

/-- The test whether an attribute has a number, with a placeholder number. -/
def isNumber (name : String) (number : Nat) : Condition :=
  .leaf ((Test.compare .eq ⟨name, none⟩ (.ofInt number)).leaf number)

/-- The conditions of a change: a conjunction with another one in it, an empty choice, and a conjunction that
is negated. -/
def guarded : Chain :=
  (((({} : Chain).add (.all [isNumber "a" 0, .all [isNumber "b" 1]])).add (.any [])).add
    (Condition.all [isNumber "c" 2, .any []]).negate)

theorem guarded_built : ∀ condition ∈ guarded.conditions, condition.Built IsPlainLeaf := by
  have hleaf : ∀ name ∈ ["a", "b", "c"], ∀ number, (isNumber name number).Built IsPlainLeaf := by
    intro name hname number
    have hplain : (⟨name, none⟩ : Handle).IsPlain := by
      revert name
      decide +kernel
    exact .leaf ⟨.compare .eq ⟨name, none⟩ (.ofInt number), number, hplain, rfl⟩
  have hb : (Condition.all [isNumber "b" 1]).Built IsPlainLeaf :=
    .all (by simpa using hleaf "b" (by simp) 1)
  have ha : (Condition.all [isNumber "a" 0, .all [isNumber "b" 1]]).Built IsPlainLeaf :=
    .all (by simpa using ⟨hleaf "a" (by simp) 0, hb⟩)
  have hnone : (Condition.any []).Built IsPlainLeaf := .any (by simp)
  have hc : (Condition.all [isNumber "c" 2, .any []]).Built IsPlainLeaf :=
    .all (by simpa using ⟨hleaf "c" (by simp) 2, hnone⟩)
  simpa [guarded, add] using ⟨ha, hnone, hc.negate⟩

/-- The conjunction is spliced one level deep, the empty parts are dropped, and the negation stays. -/
theorem combined_is_conjunction_guarded :
    guarded.compile.text = "(#a = :a_0) AND (#b = :b_1) AND (NOT (#c = :c_2))" ∧
      ∃ formula : Formula,
        (∀ assigned, formula.truth assigned = true ↔
          ∀ condition ∈ guarded.conditions, condition.compile.text ≠ "" →
            condition.truth? assigned = some true) ∧
        ∀ other : Formula, other.Parses IsLeafText guarded.compile.text ↔ other = formula := by
  have htext : guarded.compile.text = "(#a = :a_0) AND (#b = :b_1) AND (NOT (#c = :c_2))" := by
    decide +kernel
  obtain ⟨-, -, -, hmeans, -⟩ := combined_is_conjunction guarded
  obtain ⟨formula, -, htruth, honly⟩ := hmeans (by rw [htext]; decide)
  exact ⟨htext, formula, htruth, honly guarded_built⟩

end Chain

end SingleTable
