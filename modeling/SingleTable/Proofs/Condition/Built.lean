import SingleTable.Condition.Basic

/-!
# Conditions built of leaves

The conditions that can be made of given leaves by conjunction, disjunction and negation, to any depth and
with any leaf used any number of times. Each leaf of such a condition is one of the given leaves, negated or
not (`Condition.Built.origin`).
-/

set_option autoImplicit false

namespace SingleTable

namespace Condition

/-- The conditions built of given leaves. -/
inductive Built (made : Leaf → Prop) : Condition → Prop
  | leaf {leaf : Leaf} (h : made leaf) : Built made (.leaf leaf)
  | all {children : List Condition} (h : ∀ child ∈ children, Built made child) :
      Built made (.all children)
  | any {children : List Condition} (h : ∀ child ∈ children, Built made child) :
      Built made (.any children)
  | negate {condition : Condition} (h : Built made condition) : Built made condition.negate

theorem leavesOfAll_append (front back : List Condition) :
    leavesOfAll (front ++ back) = leavesOfAll front ++ leavesOfAll back := by
  induction front with
  | nil => rfl
  | cons condition rest ih => rw [List.cons_append, leavesOfAll, leavesOfAll, ih, List.append_assoc]

theorem mem_leavesOfAll_iff {leaf : Leaf} {conditions : List Condition} :
    leaf ∈ leavesOfAll conditions ↔ ∃ condition ∈ conditions, leaf ∈ condition.leaves := by
  induction conditions with
  | nil => simp [leavesOfAll]
  | cons condition rest ih =>
    rw [leavesOfAll, List.mem_append, ih]
    simp

/-- A leaf of a negation is a leaf of the negated condition, up to its own negation. -/
theorem mem_leaves_negate {condition : Condition} {leaf : Leaf} (h : leaf ∈ condition.negate.leaves) :
    ∃ origin ∈ condition.leaves, leaf = { origin with negated := leaf.negated } := by
  cases condition with
  | leaf test =>
    refine ⟨test, List.mem_singleton_self test, ?_⟩
    rw [negate] at h
    split at h
    · rw [leaves, leavesOfAll, leavesOfAll, leaves, List.append_nil, List.mem_singleton] at h
      rw [h]
    · rw [leaves, List.mem_singleton] at h
      rw [h]
  | group joiner children negated =>
    refine ⟨leaf, ?_, rfl⟩
    rw [negate] at h
    split at h
    · rwa [leaves, leavesOfAll, leavesOfAll, List.append_nil] at h
    · exact h

/-- Every leaf of a built condition is one of the given leaves up to its negation. -/
theorem Built.origin {made : Leaf → Prop} {condition : Condition} (h : Built made condition) {leaf : Leaf}
    (hleaf : leaf ∈ condition.leaves) :
    ∃ origin, made origin ∧ leaf = { origin with negated := leaf.negated } := by
  induction h generalizing leaf with
  | @leaf test hmade =>
    rw [leaves, List.mem_singleton] at hleaf
    exact ⟨test, hmade, by rw [hleaf]⟩
  | all _ ih =>
    rw [Condition.all, leaves] at hleaf
    obtain ⟨child, hchild, hmem⟩ := mem_leavesOfAll_iff.1 hleaf
    exact ih child hchild hmem
  | any _ ih =>
    rw [Condition.any, leaves] at hleaf
    obtain ⟨child, hchild, hmem⟩ := mem_leavesOfAll_iff.1 hleaf
    exact ih child hchild hmem
  | negate _ ih =>
    obtain ⟨inner, hinner, heq⟩ := mem_leaves_negate hleaf
    obtain ⟨origin, hmade, horigin⟩ := ih hinner
    refine ⟨origin, hmade, ?_⟩
    rw [heq, horigin]

/-- The leaves of a condition are given ones, negated or not. -/
def LeavesFrom (made : Leaf → Prop) (condition : Condition) : Prop :=
  ∀ leaf ∈ condition.leaves, ∃ origin, made origin ∧ leaf = { origin with negated := leaf.negated }

theorem Built.leavesFrom {made : Leaf → Prop} {condition : Condition} (h : Built made condition) :
    condition.LeavesFrom made :=
  fun _ hleaf => h.origin hleaf

end Condition

end SingleTable
