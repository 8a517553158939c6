import SingleTable.Condition.Basic
import SingleTable.Expression.Handle

/-!
# Tests

A test on a handle is made a leaf by minting a placeholder for each of its values. Placeholders take
their numbers from a counter that every test advances by the number of its values, so no number is
used twice.
-/

set_option autoImplicit false

namespace SingleTable

/-- A computation that takes numbers from a counter. -/
abbrev Minting (α : Type) := StateM Nat α

/-- The placeholder of a value: the name of the attribute, the part that the value plays, and a
number. -/
def valuePlaceholder (name role : String) (number : Nat) : String :=
  ":" ++ name ++ role ++ "_" ++ toString number

/-- A test on an item. -/
inductive Test where
  /-- A comparison with a value. -/
  | compare (comparison : Comparison) (target : Handle) (value : Value)
  /-- A range with both of its ends. -/
  | between (target : Handle) (low high : Value)
  /-- A beginning of a text or byte string. -/
  | beginsWith (target : Handle) (start : Value)
  /-- A part of a text or an element of a collection. -/
  | contains (target : Handle) (part : Value)
  /-- The target exists. -/
  | present (target : Handle)
  /-- The target does not exist. -/
  | absent (target : Handle)
  /-- The kind of the target. -/
  | hasType (target : Handle) (kind : ValueType)
  /-- Equality with one value of a list. -/
  | oneOf (target : Handle) (values : List Value)
  /-- A comparison of the size of the target. -/
  | size (comparison : Comparison) (target : Handle) (bound : Nat)

namespace Test

/-- The values of a test with the parts that they play. -/
def operands : Test → List (String × Value)
  | compare _ _ value => [("", value)]
  | between _ low high => [("_low", low), ("_high", high)]
  | beginsWith _ start => [("", start)]
  | contains _ part => [("", part)]
  | present _ => []
  | absent _ => []
  | hasType _ kind => [("_type", .string kind.tag)]
  | oneOf _ values => values.mapIdx fun i value => ("_in" ++ toString i, value)
  | size _ _ bound => [("_size", .ofInt bound)]

/-- The target of a test. -/
def target : Test → Handle
  | compare _ target _ => target
  | between target _ _ => target
  | beginsWith target _ => target
  | contains target _ => target
  | present target => target
  | absent target => target
  | hasType target _ => target
  | oneOf target _ => target
  | size _ target _ => target

/-- The kind of the leaf of a test. -/
def kind : Test → LeafKind
  | compare comparison _ _ => .compare comparison
  | between _ _ _ => .between
  | beginsWith _ _ => .beginsWith
  | contains _ _ => .contains
  | present _ => .present
  | absent _ => .absent
  | hasType _ _ => .hasType
  | oneOf _ _ => .oneOf
  | size comparison _ _ => .size comparison

/-- The number of placeholders of a test. -/
def arity (test : Test) : Nat := test.operands.length

/-- The values of a test under placeholders that count from a number on. -/
def bound (test : Test) (next : Nat) : List (String × Value) :=
  test.operands.mapIdx fun i operand =>
    (valuePlaceholder test.target.name operand.1 (next + i), operand.2)

/-- A function call in an expression. -/
def call (function : String) (arguments : List String) : String :=
  function ++ "(" ++ ", ".intercalate arguments ++ ")"

/-- The text of a test on an operand, with the placeholders of its values. -/
def text (test : Test) (operand : String) (placeholders : List String) : String :=
  match test with
  | compare comparison _ _ =>
    operand ++ " " ++ comparison.sign ++ " " ++ ", ".intercalate placeholders
  | between _ _ _ => operand ++ " BETWEEN " ++ " AND ".intercalate placeholders
  | beginsWith _ _ => call "begins_with" (operand :: placeholders)
  | contains _ _ => call "contains" (operand :: placeholders)
  | present _ => call "attribute_exists" [operand]
  | absent _ => call "attribute_not_exists" [operand]
  | hasType _ _ => call "attribute_type" (operand :: placeholders)
  | oneOf _ _ => operand ++ " IN (" ++ ", ".intercalate placeholders ++ ")"
  | size comparison _ _ =>
    call "size" [operand] ++ " " ++ comparison.sign ++ " " ++ ", ".intercalate placeholders

/-- Whether nothing can pass a test, so that its leaf has no text: a choice out of no values. -/
def isVoid : Test → Bool
  | oneOf _ values => values.isEmpty
  | _ => false

/-- The leaf of a test, whose placeholders count from a number on. -/
def leaf (test : Test) (next : Nat) : Leaf :=
  if test.isVoid then ⟨"", .empty, .empty, false, test.kind⟩
  else
    let operand := test.target.operand
    let bound := test.bound next
    ⟨test.text operand.text (bound.map Prod.fst), .ofList operand.names, .ofList bound, false,
      test.kind⟩

/-- Makes a test a condition and advances the counter. -/
def build (test : Test) : Minting Condition := fun next =>
  (.leaf (test.leaf next), next + test.arity)

end Test

end SingleTable
