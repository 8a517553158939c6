import SingleTable.Condition.Basic
import SingleTable.Expression.Fragment

/-!
# Compiling conditions

The expression of a condition. An empty child of a group is left out, a single child stands for its
group, and several children are joined, each of them in parentheses. A negation is written around what
it negates and vanishes with it. The placeholder maps are those of all leaves, merged from left to
right.
-/

set_option autoImplicit false

namespace SingleTable

namespace Condition

/-- Writes a negation around a text that is not empty. -/
def negatedText (negated : Bool) (text : String) : String :=
  if negated && !text.isEmpty then "NOT (" ++ text ++ ")" else text

/-- A text in parentheses. -/
def parenthesised (text : String) : String := "(" ++ text ++ ")"

/-- Joins the texts of a group that are not empty. -/
def joinedText (joiner : Joiner) : List String → String
  | [] => ""
  | [text] => text
  | texts => joiner.separator.intercalate (texts.map parenthesised)

mutual

/-- The text of a condition. -/
def text : Condition → String
  | .leaf test => negatedText test.negated test.text
  | .group joiner children negated => negatedText negated (joinedText joiner (texts children))

/-- The texts of a list of conditions that are not empty. -/
def texts : List Condition → List String
  | [] => []
  | child :: rest =>
    let text := text child
    if text.isEmpty then texts rest else text :: texts rest

end

/-- The names that the name tokens of leaves stand for. -/
def namesOf (leaves : List Leaf) : Dict String :=
  leaves.foldl (fun names leaf => names.extend leaf.names) .empty

/-- The values that the value placeholders of leaves stand for. -/
def valuesOf (leaves : List Leaf) : Dict Value :=
  leaves.foldl (fun values leaf => values.extend leaf.values) .empty

/-- The expression of a condition. -/
def compile (condition : Condition) : Fragment :=
  ⟨condition.text, namesOf condition.leaves, valuesOf condition.leaves⟩

end Condition

/-- The expression that joins conditions with a plain AND, as the table wants it of keys. -/
def compileKeys (conditions : List Condition) : Fragment :=
  let fragments := conditions.map Condition.compile
  let merged := fragments.foldl Fragment.merge {}
  { merged with
    text := " AND ".intercalate ((fragments.filter (!·.isEmpty)).map Fragment.text) }

end SingleTable
