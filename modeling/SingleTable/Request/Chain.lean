import SingleTable.Condition.Compile
import SingleTable.Condition.Test

/-!
# Conditions of one request

A request collects conditions, each of which has to hold. The conditions, and the updates beside them,
take the numbers of their placeholders from one counter, so no number is given twice. A condition that is
added more than once, or that was made with the counter of another request, brings the placeholders that it
has.
-/

set_option autoImplicit false

namespace SingleTable

/-- The conditions of a request with its counter. -/
structure Chain where
  /-- The next number of a placeholder. -/
  next : Nat := 0
  /-- The conditions in the order in which they were added. -/
  conditions : List Condition := []

namespace Chain

/-- Adds a condition that is already made. -/
def add (chain : Chain) (condition : Condition) : Chain :=
  { chain with conditions := chain.conditions ++ [condition] }

/-- Makes a condition with the counter of the request and adds it. -/
def push (chain : Chain) (condition : Minting Condition) : Chain :=
  let (condition, next) := condition.run chain.next
  { chain.add condition with next }

/-- The conditions of the conjunction: the children of each conjunction that was added, and every
other condition as it is. -/
def conjuncts (chain : Chain) : List Condition :=
  chain.conditions.flatMap fun condition => condition.conjuncts?.getD [condition]

/-- The one condition that all of the request hold. A single conjunct stands for itself. -/
def combined (chain : Chain) : Condition :=
  match chain.conjuncts with
  | [only] => only
  | conjuncts => .all conjuncts

/-- The expression of the combined condition. -/
def compile (chain : Chain) : Fragment := chain.combined.compile

end Chain

end SingleTable
