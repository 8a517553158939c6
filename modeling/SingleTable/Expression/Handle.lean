import SingleTable.Expression.Fragment
import SingleTable.Failure
import SingleTable.Model.Basic

/-!
# Attribute handles

A handle names an attribute, or a value nested in one by a path such as `address.lines[1]`. In an
expression no name stands for itself: each name of a path is written behind the mark `#` and bound in
the name map of the expression, list indexes stay as they are.

A projection is the expression that lists the attributes to return: each operand once, in the order in which
they come first.
-/

set_option autoImplicit false

namespace SingleTable

/-- A reference to an attribute, or to a value nested in it. -/
structure Handle where
  /-- The name of the attribute, from which value placeholders are named. -/
  name : String
  /-- The path to a nested value. -/
  path : Option String := none
  deriving DecidableEq

/-- The text of a handle in an expression with the names that it binds. -/
structure Operand where
  /-- The text. -/
  text : String
  /-- The bound names: each token with the name it stands for. -/
  names : List (String × String)
  deriving DecidableEq

/-- The token of a name. -/
def nameToken (name : String) : String := "#" ++ name

/-- Splits a text at every separator. -/
def splitAtEvery (separator : Char) : List Char → List (List Char)
  | [] => [[]]
  | c :: rest =>
    if c = separator then [] :: splitAtEvery separator rest
    else match splitAtEvery separator rest with
      | [] => [[c]]
      | part :: parts => (c :: part) :: parts

/-- A step of a path: a name and the list indexes behind it. -/
structure PathStep where
  /-- The name up to the first bracket. -/
  name : String
  /-- The rest, which is empty or starts with a bracket. -/
  indexes : String
  deriving DecidableEq

/-- The step of a part between two points of a path. -/
def PathStep.ofPart (part : List Char) : PathStep :=
  ⟨String.ofList (part.takeWhile (· != '[')), String.ofList (part.dropWhile (· != '['))⟩

/-- The steps of a path. -/
def pathSteps (path : String) : List PathStep :=
  (splitAtEvery '.' path.toList).map PathStep.ofPart

namespace Handle

/-- The text of a handle for a reader: its path, or its name. -/
def text (handle : Handle) : String := handle.path.getD handle.name

/-- The operand of a handle. -/
def operand (handle : Handle) : Operand :=
  match handle.path with
  | none => ⟨nameToken handle.name, [(nameToken handle.name, handle.name)]⟩
  | some path =>
    let steps := pathSteps path
    ⟨".".intercalate (steps.map fun step => nameToken step.name ++ step.indexes),
      steps.map fun step => (nameToken step.name, step.name)⟩

end Handle

/-! ## Projections -/

/-- The expression that lists handles. -/
def projection (handles : List Handle) : Fragment :=
  let operands := handles.map Handle.operand
  { text := ", ".intercalate ((operands.map Operand.text).eraseDups)
    names := .ofList (operands.flatMap Operand.names) }

/-! ## The handles of a model -/

/-- The handles of the attributes that a model declares, by name. -/
def Model.handles (model : Model) : Dict Handle :=
  .ofList (model.attributes.map fun definition => (definition.name, ⟨definition.name, none⟩))

/-- The handle of a declared attribute. -/
def Model.handle (model : Model) (name : String) : Except Failure Handle :=
  match model.handles.get? name with
  | some handle => .ok handle
  | none => .error (.unknownAttribute model.name name)

end SingleTable
