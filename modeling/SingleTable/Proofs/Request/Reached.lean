import SingleTable.Proofs.Condition.Built
import SingleTable.Proofs.Condition.Minting
import SingleTable.Request.Range

/-!
# The conditions of a query

The queries that a chain of calls can reach, with the tests that the operator builder of the query has made
on the way (`Query.Reached`). The conditions are made by the builder: each call adds a condition that is
built of tests that were made up to then, any of them any number of times. Two facts hold in all these
queries (`Query.Owned`): the builder has kept its tests apart, and there is no other leaf.
-/

set_option autoImplicit false

namespace SingleTable

/-! ## Leaves of a chain -/

namespace Chain

theorem leavesOfAll_conjuncts? (condition : Condition) :
    Condition.leavesOfAll (condition.conjuncts?.getD [condition]) = condition.leaves := by
  cases condition with
  | leaf test => rfl
  | group joiner children negated =>
    cases joiner with
    | or => exact List.append_nil _
    | and =>
      cases negated with
      | true => exact List.append_nil _
      | false => rfl

/-- The conjuncts of a chain have the leaves of the conditions that were added. -/
theorem leavesOfAll_conjuncts (chain : Chain) :
    Condition.leavesOfAll chain.conjuncts = Condition.leavesOfAll chain.conditions := by
  rw [conjuncts]
  induction chain.conditions with
  | nil => rfl
  | cons condition rest ih =>
    rw [List.flatMap_cons, Condition.leavesOfAll_append, leavesOfAll_conjuncts?, ih, Condition.leavesOfAll]

/-- Combining the conditions of a chain loses no leaf, adds none and keeps their order. -/
theorem leaves_combined (chain : Chain) :
    chain.combined.leaves = Condition.leavesOfAll chain.conditions := by
  rw [← leavesOfAll_conjuncts, combined]
  split
  · rename_i only hconjuncts
    rw [hconjuncts, Condition.leavesOfAll, Condition.leavesOfAll, List.append_nil]
  · rfl

end Chain

/-! ## Reached queries -/

/-- The leaves of the tests that a builder has made. -/
def IsMade (made : List (Test × Nat)) (leaf : Leaf) : Prop :=
  ∃ entry ∈ made, leaf = entry.1.leaf entry.2

/-- A leaf comes from one of the given tests: it is the leaf of the test, negated or not. -/
def Leaf.ComesFrom (leaf : Leaf) (entry : Test × Nat) : Prop :=
  leaf = { entry.1.leaf entry.2 with negated := leaf.negated }

theorem Condition.Built.comesFrom {made : List (Test × Nat)} {condition : Condition}
    (h : condition.Built (IsMade made)) {leaf : Leaf} (hleaf : leaf ∈ condition.leaves) :
    ∃ entry ∈ made, leaf.ComesFrom entry := by
  obtain ⟨origin, ⟨entry, hentry, rfl⟩, heq⟩ := h.origin hleaf
  exact ⟨entry, hentry, heq⟩

/-- The leaves of some conditions come from tests, after one was added and more tests were made. -/
theorem comesFrom_append {made more : List (Test × Nat)} {conditions : List Condition}
    (h : ∀ leaf ∈ Condition.leavesOfAll conditions, ∃ entry ∈ made, leaf.ComesFrom entry)
    {condition : Condition} (hbuilt : condition.Built (IsMade (made ++ more))) :
    ∀ leaf ∈ Condition.leavesOfAll (conditions ++ [condition]),
      ∃ entry ∈ made ++ more, leaf.ComesFrom entry := by
  intro leaf hleaf
  rw [Condition.leavesOfAll_append, List.mem_append] at hleaf
  rcases hleaf with hold | hnew
  · obtain ⟨entry, hentry, hcomes⟩ := h leaf hold
    exact ⟨entry, List.mem_append_left _ hentry, hcomes⟩
  · rw [Condition.leavesOfAll, Condition.leavesOfAll, List.append_nil] at hnew
    exact hbuilt.comesFrom hnew

namespace Query

/-- The calls that leave the conditions of a query alone. -/
inductive Setting where
  | settings (settings : Settings)
  | index (name : String)
  | project (handles : List Handle)
  | policy (policy : SharedKeyPolicy)
  | limit (limit : Int32)
  | forward (ascending : Bool)
  | startingAfter (key : Dict Value)
  | select (mode : SelectMode)
  | consistency (consistent : Bool)

/-- The query after a call. -/
def Setting.apply (query : Query) : Setting → Query
  | .settings defaults => query.withSettings defaults
  | .index name => query.onIndex name
  | .project handles => query.project handles
  | .policy choice => query.withPolicy choice
  | .limit number => query.withLimit number
  | .forward ascending => query.forward ascending
  | .startingAfter key => query.startingAfter key
  | .select mode => query.selecting mode
  | .consistency consistent => query.withConsistency consistent

theorem Setting.chain_apply (query : Query) (setting : Setting) :
    (setting.apply query).chain = query.chain := by
  cases setting <;> rfl

/-- One call on a query, with the tests that its operator builder has made before and after it. Operators
are called on the builder of the query, or on the one that the call hands to a condition; a condition is
built of tests that were made. -/
inductive Step : List (Test × Nat) → Query → List (Test × Nat) → Query → Prop
  | setting {made : List (Test × Nat)} {query : Query} (setting : Setting) :
      Step made query made (setting.apply query)
  | operators {made more : List (Test × Nat)} {query : Query} {next : Nat}
      (hmore : Minted query.chain.next more next) :
      Step made query (made ++ more) { query with chain := { query.chain with next } }
  | condition {made more : List (Test × Nat)} {query : Query} {build : Minting Condition}
      (hmore : Minted query.chain.next more (build.run query.chain.next).2)
      (hbuilt : (build.run query.chain.next).1.Built (IsMade (made ++ more))) :
      Step made query (made ++ more) (query.condition build)
  | withCondition {made : List (Test × Nat)} {query : Query} {condition : Condition}
      (hbuilt : condition.Built (IsMade made)) :
      Step made query made (query.withCondition condition)

/-- The queries that calls reach, with the tests that their operator builders have made. -/
inductive Reached : List (Test × Nat) → Query → Prop
  | start (model : Model) : Reached [] { model }
  | step {made made' : List (Test × Nat)} {query query' : Query} (h : Reached made query)
      (hstep : Step made query made' query') : Reached made' query'

/-- The conditions of a query belong to its operator builder. -/
structure Owned (made : List (Test × Nat)) (query : Query) : Prop where
  /-- The builder has kept its tests apart. -/
  apart : Apart made query.chain.next
  /-- Every leaf comes from a test of the builder. -/
  leaves : ∀ leaf ∈ Condition.leavesOfAll query.chain.conditions, ∃ entry ∈ made, leaf.ComesFrom entry

/-- A call keeps the conditions of a query with its builder. -/
theorem Owned.step {made made' : List (Test × Nat)} {query query' : Query} (h : Owned made query)
    (hstep : Step made query made' query') : Owned made' query' := by
  cases hstep with
  | setting setting =>
    constructor
    · rw [setting.chain_apply]
      exact h.apart
    · rw [setting.chain_apply]
      exact h.leaves
  | operators hmore =>
    refine ⟨h.apart.append hmore, fun leaf hleaf => ?_⟩
    obtain ⟨entry, hentry, hcomes⟩ := h.leaves leaf hleaf
    exact ⟨entry, List.mem_append_left _ hentry, hcomes⟩
  | condition hmore hbuilt => exact ⟨h.apart.append hmore, comesFrom_append h.leaves hbuilt⟩
  | @withCondition _ condition hbuilt =>
    refine ⟨h.apart, ?_⟩
    -- No test is made, which is the case of no more tests.
    have hmade : condition.Built (IsMade (made ++ [])) := by rwa [List.append_nil]
    have hcomes := comesFrom_append h.leaves hmade
    rwa [List.append_nil] at hcomes

/-- **The conditions of every query belong to its builder.** -/
theorem Reached.owned {made : List (Test × Nat)} {query : Query} (h : Reached made query) :
    Owned made query := by
  induction h with
  | start model => exact ⟨Apart.empty 0, fun leaf hleaf => by cases hleaf⟩
  | step _ hstep ih => exact ih.step hstep

end Query

end SingleTable
