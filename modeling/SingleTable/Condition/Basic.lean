import SingleTable.Dict
import SingleTable.Expression.NameToken
import SingleTable.Value.Basic

/-!
# Conditions

A condition is a leaf, which is one test on an item in the words of the table, or a group of conditions
joined by AND or OR. Both may be negated. Conditions are values: joining and negating make new ones.
-/

set_option autoImplicit false

namespace SingleTable

/-- A comparison. -/
inductive Comparison where
  | eq
  | ne
  | lt
  | le
  | gt
  | ge
  deriving DecidableEq

/-- The sign of a comparison. -/
def Comparison.sign : Comparison → String
  | eq => "="
  | ne => "<>"
  | lt => "<"
  | le => "<="
  | gt => ">"
  | ge => ">="

/-- What joins the conditions of a group. -/
inductive Joiner where
  | and
  | or
  deriving DecidableEq

/-- The word of a joiner. -/
def Joiner.word : Joiner → String
  | and => "AND"
  | or => "OR"

/-- The text between two joined conditions. -/
def Joiner.separator (joiner : Joiner) : String := " " ++ joiner.word ++ " "

/-- The test that a leaf makes. -/
inductive LeafKind where
  | compare (comparison : Comparison)
  | between
  | beginsWith
  | contains
  | present
  | absent
  | hasType
  | oneOf
  | size (comparison : Comparison)
  /-- A text written by hand. -/
  | raw
  deriving DecidableEq

/-- Whether the table answers a test of the kind from the order of its keys. -/
def LeafKind.isKeyTest : LeafKind → Bool
  | .compare comparison => comparison != .ne
  | .between => true
  | .beginsWith => true
  | _ => false

/-- One test with its placeholder maps. -/
structure Leaf where
  /-- The text of the test, before any negation. -/
  text : String
  /-- The names that its name tokens stand for. -/
  names : Dict String
  /-- The values that its value placeholders stand for. -/
  values : Dict Value
  /-- Whether the test is negated. -/
  negated : Bool
  /-- The kind of the test. -/
  kind : LeafKind
  deriving DecidableEq

/-- The attribute that a leaf tests: the name of its only name token. A text with no or with several
different tokens tests no single attribute. -/
def Leaf.attribute? (leaf : Leaf) : Option String :=
  match (nameTokens leaf.text).eraseDups with
  | [token] => leaf.names.get? token
  | _ => none

/-- A condition on an item. -/
inductive Condition where
  | leaf (leaf : Leaf)
  | group (joiner : Joiner) (children : List Condition) (negated : Bool)

namespace Condition

/-! ## Equality -/

mutual

/-- Whether two conditions are the same. -/
def same : Condition → Condition → Bool
  | .leaf a, .leaf b => a == b
  | .group j as m, .group k bs n => j == k && sameAll as bs && m == n
  | _, _ => false

/-- Whether two lists hold the same conditions. -/
def sameAll : List Condition → List Condition → Bool
  | [], [] => true
  | a :: as, b :: bs => same a b && sameAll as bs
  | _, _ => false

end

mutual

/-- Conditions that are the same are equal. -/
theorem same_iff (a b : Condition) : same a b = true ↔ a = b := by
  cases a <;> cases b <;> simp [same, sameAll_iff, and_assoc]

/-- Lists that hold the same conditions are equal. -/
theorem sameAll_iff (as bs : List Condition) : sameAll as bs = true ↔ as = bs := by
  cases as with
  | nil => cases bs <;> simp [sameAll]
  | cons a as =>
    cases bs with
    | nil => simp [sameAll]
    | cons b bs => simp [sameAll, same_iff a b, sameAll_iff as bs]

end

instance : DecidableEq Condition := fun a b => decidable_of_iff _ (same_iff a b)

/-! ## Making conditions -/

/-- The condition that all of a list hold. -/
def all (children : List Condition) : Condition := .group .and children false

/-- The condition that one of a list holds. -/
def any (children : List Condition) : Condition := .group .or children false

/-- A test written by hand, with its placeholder maps. -/
def raw (text : String) (names : List (String × String)) (values : List (String × Value)) :
    Condition :=
  .leaf ⟨text, .ofList names, .ofList values, false, .raw⟩

/-- Whether a condition is negated. -/
def isNegated : Condition → Bool
  | .leaf test => test.negated
  | .group _ _ negated => negated

/-- The negation of a condition. A condition that is negated already becomes the only child of a
negated group, so no negation is lost. -/
def negate : Condition → Condition
  | .leaf test =>
    if test.negated then .group .and [.leaf test] true
    else .leaf { test with negated := true }
  | .group joiner children negated =>
    if negated then .group .and [.group joiner children negated] true
    else .group joiner children true

/-! ## Observing conditions -/

mutual

/-- The leaves of a condition from left to right. -/
def leaves : Condition → List Leaf
  | .leaf test => [test]
  | .group _ children _ => leavesOfAll children

/-- The leaves of a list of conditions from left to right. -/
def leavesOfAll : List Condition → List Leaf
  | [] => []
  | child :: rest => leaves child ++ leavesOfAll rest

end

mutual

/-- Whether OR joins a group of the condition. -/
def containsOr : Condition → Bool
  | .leaf _ => false
  | .group joiner children _ => joiner == .or || anyContainsOr children

/-- Whether OR joins a group in a list of conditions. -/
def anyContainsOr : List Condition → Bool
  | [] => false
  | child :: rest => containsOr child || anyContainsOr rest

end

/-- The children of a conjunction that is not negated. -/
def conjuncts? : Condition → Option (List Condition)
  | .group .and children false => some children
  | _ => none

end Condition

end SingleTable
