import SingleTable.Condition.Compile
import SingleTable.Plan.Route
import SingleTable.Settings

/-!
# Planning queries

A planner splits the condition of a query in two: key conditions, which select the range of keys that
the table reads, and filters, which it evaluates on each item that it reads. A conjunction is taken
apart one level deep; a disjunction and a negated group are filters as a whole, and a single leaf is a
conjunction of its own.

An attribute can feed the templates of several keys, but a condition on it goes only to the first. A
later key is shadowed if it got no condition although the equalities of the conjunction determine its
value. Each shadowed key is reported once, with the first leaf that went to a key and whose attribute
feeds it.
-/

set_option autoImplicit false

namespace SingleTable

/-! ## Shadowed keys -/

/-- The keys that the leaf of an attribute leaves without a condition. -/
structure Shadow where
  /-- The attribute. -/
  attributeName : String
  /-- The key that the leaf went to. -/
  chosen : String
  /-- The keys without a condition, in order of declaration. -/
  shadowed : List String
  deriving DecidableEq

/-- Whether the equalities of a conjunction determine the key of a slot. -/
def Slot.isDetermined (slot : Slot) (bindings : Dict Value) : Bool :=
  slot.template.references.all bindings.contains

/-- The slots that a leaf leaves without a condition, apart from those at the given positions. -/
def shadowedSlots (slots : List Slot) (bindings : Dict Value) (apart : List Nat) (pushed : Pushed) :
    List (Slot × Nat) :=
  slots.zipIdx.filter fun (slot, position) =>
    pushed.position < position && !apart.contains position &&
      slot.template.refersTo pushed.attributeName && slot.isDetermined bindings

/-- The reports for leaves in order. The positions to leave apart are those with a condition and those
that were reported before. -/
def shadows (slots : List Slot) (bindings : Dict Value) (apart : List Nat) : List Pushed → List Shadow
  | [] => []
  | pushed :: rest =>
    match shadowedSlots slots bindings apart pushed with
    | [] => shadows slots bindings apart rest
    | found =>
      ⟨pushed.attributeName, pushed.key, found.map (·.1.name)⟩ ::
        shadows slots bindings (apart ++ found.map (·.2)) rest

/-! ## Plans -/

/-- The two halves of the condition of a query. -/
structure Plan where
  /-- The conditions on physical keys. -/
  keyConditions : List Condition
  /-- The conditions on items. -/
  filterConditions : List Condition
  deriving DecidableEq

namespace Plan

/-- The expression of the key conditions. -/
def keyExpression (plan : Plan) : Fragment := compileKeys plan.keyConditions

/-- The expression of the filters. -/
def filterExpression (plan : Plan) : Fragment := (Condition.all plan.filterConditions).compile

/-- The plan that reads everything and filters by a condition. -/
def filterOnly (condition : Condition) : Plan := ⟨[], [condition]⟩

end Plan

/-- What the condition of a query is split against. -/
structure Planner where
  /-- The name of the model. -/
  model : String
  /-- The keys, in order of declaration. -/
  slots : List Slot
  /-- What happens about shadowed keys. -/
  policy : SharedKeyPolicy := .warn

namespace Planner

/-- The planner for the primary key of a model. -/
def ofModel (model : Model) : Planner := ⟨model.name, model.key.map .ofDefinition, .warn⟩

/-- The planner for an index of a model. -/
def ofIndex (model : Model) (index : String) : Except Failure Planner :=
  match model.index? index with
  | none => .error (.unknownIndex model.name index)
  | some definition => .ok ⟨model.name, definition.key.map .ofDefinition, .warn⟩

/-- Applies the policy to shadowed keys: the first is a failure, or all of them are warnings. -/
def judge (planner : Planner) (shadows : List Shadow) : Except Failure (List Warning) :=
  match planner.policy, shadows with
  | .reject, first :: _ =>
    .error (.ambiguousKey first.attributeName first.chosen first.shadowed)
  | .reject, [] => .ok []
  | .warn, shadows =>
    .ok (shadows.map fun shadow =>
      .shadowedKeys planner.model shadow.attributeName shadow.chosen shadow.shadowed)

/-- Splits the conditions of a conjunction. -/
def planAll (planner : Planner) (conjuncts : List Condition) :
    Except Failure (Plan × List Warning) := do
  let bindings := bindings conjuncts
  let (pushed, filters) ← routeAll planner.slots bindings conjuncts
  let shadows := shadows planner.slots bindings (pushed.map (·.position)) pushed
  let warnings ← planner.judge shadows
  .ok (⟨pushed.map fun entry => .leaf entry.leaf, filters⟩, warnings)

/-- Splits a condition. -/
def plan (planner : Planner) (condition : Condition) : Except Failure (Plan × List Warning) :=
  match condition with
  | .leaf test => planner.planAll [.leaf test]
  | .group .and children false => planner.planAll children
  | .group joiner children negated => .ok (.filterOnly (.group joiner children negated), [])

end Planner

end SingleTable
