import SingleTable.Condition.Basic
import SingleTable.Expression.Handle
import SingleTable.Template.Basic

/-!
# Routing leaves to keys

A leaf goes to a key if the table can answer its test from the order of keys and a key template refers
to its attribute; the first such template in order of declaration is taken. The leaf then tests the
physical key: each of its values is replaced by the key that the template gives for it, the other
references of the template taking their values from the equalities in the same conjunction.
-/

set_option autoImplicit false

namespace SingleTable

/-- A physical key with its template. -/
structure Slot where
  /-- The name of the physical key. -/
  name : String
  /-- The template of its values. -/
  template : Template
  deriving DecidableEq

/-- The slot of a key definition. -/
def Slot.ofDefinition (definition : KeyDefinition) : Slot :=
  ⟨definition.name, .parse definition.template⟩

/-- A leaf that went to a key. -/
structure Pushed where
  /-- The attribute that the leaf tested. -/
  attributeName : String
  /-- The position of the slot. -/
  position : Nat
  /-- The name of the physical key. -/
  key : String
  /-- The leaf that tests the physical key. -/
  leaf : Leaf
  deriving DecidableEq

/-! ## Equalities -/

/-- The attribute and value of a leaf that says that they are equal. -/
def Leaf.equality? (leaf : Leaf) : Option (String × Value) :=
  if leaf.negated || leaf.kind != .compare .eq then none
  else match leaf.attribute?, leaf.values.values with
    | some name, [value] => some (name, value)
    | _, _ => none

/-- The equality that a condition of a conjunction states. -/
def Condition.equality? : Condition → Option (String × Value)
  | .leaf test => test.equality?
  | .group _ _ _ => none

/-- The values that the equalities of a conjunction give to attributes. The first of an attribute
counts. -/
def bindings (conjuncts : List Condition) : Dict Value :=
  -- A dictionary keeps the last entry of a name.
  .ofList (conjuncts.filterMap Condition.equality?).reverse

/-! ## Routing -/

/-- The look-up of a template whose attribute under test has the given value. -/
def slotLookup (bindings : Dict Value) (attributeName : String) (value : Value) (name : String) :
    Option Value :=
  if name = attributeName then some value else bindings.get? name

/-- Replaces values by the keys that a template gives for them. -/
def physicalValues (template : Template) (bindings : Dict Value) (attributeName : String) :
    List (String × Value) → Except Failure (List (String × Value))
  | [] => .ok []
  | (placeholder, value) :: rest => do
    let key ← template.resolve (slotLookup bindings attributeName value)
    let more ← physicalValues template bindings attributeName rest
    .ok ((placeholder, .string key) :: more)

/-- The leaf that makes the test of another one on the physical key of a slot. -/
def Leaf.onKey (leaf : Leaf) (attributeName : String) (slot : Slot)
    (values : List (String × Value)) : Leaf where
  text := renameToken leaf.text (nameToken attributeName) (nameToken slot.name)
  names := .singleton (nameToken slot.name) slot.name
  values := .ofList values
  negated := false
  kind := leaf.kind

/-- The first slot whose template refers to an attribute, with its position. -/
def slotOf? (slots : List Slot) (attributeName : String) : Option (Slot × Nat) :=
  slots.zipIdx.find? fun (slot, _) => slot.template.refersTo attributeName

/-- The slot that a leaf goes to, with the attribute that it tests and the position of the slot. -/
def Leaf.slot? (leaf : Leaf) (slots : List Slot) : Option (String × Slot × Nat) :=
  if leaf.negated || !leaf.kind.isKeyTest then none
  else do
    let name ← leaf.attribute?
    let (slot, position) ← slotOf? slots name
    some (name, slot, position)

/-- Routes a leaf: to a key, or nowhere if it has to be a filter. A leaf whose slot cannot be resolved
fails. -/
def route (slots : List Slot) (bindings : Dict Value) (leaf : Leaf) :
    Except Failure (Option Pushed) :=
  match leaf.slot? slots with
  | none => .ok none
  | some (name, slot, position) => do
    let values ← physicalValues slot.template bindings name leaf.values.entries
    .ok (some ⟨name, position, slot.name, leaf.onKey name slot values⟩)

/-- Routes the conditions of a conjunction in order: the leaves that go to keys, and the filters. A
group is a filter as a whole. -/
def routeAll (slots : List Slot) (bindings : Dict Value) :
    List Condition → Except Failure (List Pushed × List Condition)
  | [] => .ok ([], [])
  | .group joiner children negated :: rest => do
    let (pushed, filters) ← routeAll slots bindings rest
    .ok (pushed, .group joiner children negated :: filters)
  | .leaf test :: rest => do
    let routed ← route slots bindings test
    let (pushed, filters) ← routeAll slots bindings rest
    match routed with
    | some first => .ok (first :: pushed, filters)
    | none => .ok (pushed, .leaf test :: filters)

end SingleTable
