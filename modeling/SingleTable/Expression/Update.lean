import SingleTable.Condition.Test
import SingleTable.Expression.Fragment

/-!
# Updates

An update is a list of actions, each on a handle. Its expression has up to four clauses in a fixed
order; a clause lists its actions in the order in which they were recorded. Actions take the numbers of
their placeholders from the same counter as tests.
-/

set_option autoImplicit false

namespace SingleTable

/-- A part of an update expression. -/
inductive Clause where
  | set
  | remove
  | add
  | delete
  deriving DecidableEq

namespace Clause

/-- The clauses in the order in which they are written. -/
def inOrder : List Clause := [set, remove, add, delete]

/-- The word that starts a clause. -/
def word : Clause → String
  | set => "SET"
  | remove => "REMOVE"
  | add => "ADD"
  | delete => "DELETE"

end Clause

/-- A change of one attribute. -/
inductive Action where
  /-- Gives the target a value. -/
  | set (target : Handle) (value : Value)
  /-- Gives the target a value unless it has one. -/
  | setIfAbsent (target : Handle) (value : Value)
  /-- Adds a number to the target. -/
  | increment (target : Handle) (amount : Value)
  /-- Subtracts a number from the target. -/
  | decrement (target : Handle) (amount : Value)
  /-- Puts items behind those of the target. -/
  | append (target : Handle) (items : List Value)
  /-- Removes the target. -/
  | remove (target : Handle)
  /-- Adds a number or the elements of a set to the target. -/
  | add (target : Handle) (value : Value)
  /-- Takes the elements of a set out of the target. -/
  | delete (target : Handle) (subset : Value)

namespace Action

/-- The target of an action. -/
def target : Action → Handle
  | set target _ => target
  | setIfAbsent target _ => target
  | increment target _ => target
  | decrement target _ => target
  | append target _ => target
  | remove target => target
  | add target _ => target
  | delete target _ => target

/-- The value of an action. -/
def value? : Action → Option Value
  | set _ value => some value
  | setIfAbsent _ value => some value
  | increment _ amount => some amount
  | decrement _ amount => some amount
  | append _ items => some (.list items)
  | remove _ => none
  | add _ value => some value
  | delete _ subset => some subset

/-- The clause of an action. -/
def clause : Action → Clause
  | set _ _ => .set
  | setIfAbsent _ _ => .set
  | increment _ _ => .set
  | decrement _ _ => .set
  | append _ _ => .set
  | remove _ => .remove
  | add _ _ => .add
  | delete _ _ => .delete

/-- The text of an action on an operand, with the placeholder of its value. -/
def text (action : Action) (operand placeholder : String) : String :=
  match action with
  | set _ _ => operand ++ " = " ++ placeholder
  | setIfAbsent _ _ =>
    operand ++ " = " ++ Test.call "if_not_exists" [operand, placeholder]
  | increment _ _ => operand ++ " = " ++ operand ++ " + " ++ placeholder
  | decrement _ _ => operand ++ " = " ++ operand ++ " - " ++ placeholder
  | append _ _ => operand ++ " = " ++ Test.call "list_append" [operand, placeholder]
  | remove _ => operand
  | add _ _ => operand ++ " " ++ placeholder
  | delete _ _ => operand ++ " " ++ placeholder

/-- The number of placeholders of an action. -/
def arity (action : Action) : Nat := if action.value?.isSome then 1 else 0

end Action

/-- An action with the number that its placeholder got. -/
structure RecordedAction where
  /-- The action. -/
  action : Action
  /-- The number of the placeholder, of no use for an action without a value. -/
  number : Nat

namespace RecordedAction

/-- The placeholder of the value. -/
def placeholder (entry : RecordedAction) : String :=
  valuePlaceholder entry.action.target.name "" entry.number

/-- The text of the action. -/
def text (entry : RecordedAction) : String :=
  entry.action.text entry.action.target.operand.text entry.placeholder

/-- The value under its placeholder. -/
def bound (entry : RecordedAction) : List (String × Value) :=
  match entry.action.value? with
  | some value => [(entry.placeholder, value)]
  | none => []

end RecordedAction

/-- The actions of an update in the order in which they were recorded. -/
structure ChangeSet where
  /-- The recorded actions. -/
  entries : List RecordedAction := []

namespace ChangeSet

/-- Whether no action was recorded. -/
def isEmpty (changes : ChangeSet) : Bool := changes.entries.isEmpty

/-- Records an action and advances the counter. -/
def record (changes : ChangeSet) (action : Action) : Minting ChangeSet := fun next =>
  (⟨changes.entries ++ [⟨action, next⟩]⟩, next + action.arity)

/-- Records actions in order. -/
def recordAll (changes : ChangeSet) : List Action → Minting ChangeSet
  | [] => pure changes
  | action :: rest => do
    let changes ← changes.record action
    recordAll changes rest

/-- The text of a clause, empty without an action for it. -/
def clauseText (changes : ChangeSet) (clause : Clause) : String :=
  match changes.entries.filter (·.action.clause = clause) with
  | [] => ""
  | entries => clause.word ++ " " ++ ", ".intercalate (entries.map RecordedAction.text)

/-- The expression of an update. -/
def compile (changes : ChangeSet) : Fragment where
  text := " ".intercalate ((Clause.inOrder.map changes.clauseText).filter (!·.isEmpty))
  names := .ofList (changes.entries.flatMap (·.action.target.operand.names))
  values := .ofList (changes.entries.flatMap RecordedAction.bound)

end ChangeSet

end SingleTable
