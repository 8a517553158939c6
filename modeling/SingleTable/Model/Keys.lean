import SingleTable.Dict
import SingleTable.Model.Basic
import SingleTable.Template.Basic

/-!
# Keys of an item

The physical keys that the attributes of an item have under a model. Definitions are resolved in
order of declaration and the first failure ends the resolution. An index whose template refers to an
absent attribute does not hold the item, so it gives no keys.
-/

set_option autoImplicit false

namespace SingleTable

/-- Which key attributes of a model are resolved. -/
inductive KeySelection where
  | primary
  | indexes
  | all
  deriving DecidableEq

/-- The selected key attributes in order of declaration. -/
def Model.selected (model : Model) : KeySelection → List KeyDefinition
  | .primary => model.key
  | .indexes => model.indexKeys
  | .all => model.key ++ model.indexKeys

/-- Resolves one key attribute. -/
def KeyDefinition.resolve (definition : KeyDefinition) (attributes : Dict Value) :
    Except Failure String :=
  (Template.parse definition.template).resolve attributes.get?

/-- Resolves key attributes in order and adds them to the keys so far, a later one winning over an
earlier one of its name. -/
def resolveOnto (attributes : Dict Value) (keys : Dict String) :
    List KeyDefinition → Except Failure (Dict String)
  | [] => .ok keys
  | definition :: rest => do
    let key ← definition.resolve attributes
    resolveOnto attributes (keys.insert definition.name key) rest

namespace Model

/-- The keys of the selected definitions. -/
def resolveKeys (model : Model) (attributes : Dict Value) (selection : KeySelection) :
    Except Failure (Dict String) :=
  resolveOnto attributes .empty (model.selected selection)

/-- The keys of the index of a name. -/
def resolveIndexKeys (model : Model) (index : String) (attributes : Dict Value) :
    Except Failure (Dict String) :=
  match model.index? index with
  | none => .error (.unknownIndex model.name index)
  | some definition => resolveOnto attributes .empty definition.key

/-- Adds the keys of the indexes that hold an item, in order of declaration. -/
def addIndexKeys (model : Model) (attributes : Dict Value) (keys : Dict String) :
    List IndexDefinition → Except Failure (Dict String)
  | [] => .ok keys
  | index :: rest =>
    match model.resolveIndexKeys index.name attributes with
    | .ok more => addIndexKeys model attributes (keys.extend more) rest
    | .error (.missingReferences _ _) => addIndexKeys model attributes keys rest
    | .error failure => .error failure

/-- The keys that an item is stored under: the primary key and those of every index that holds it. -/
def resolveItemKeys (model : Model) (attributes : Dict Value) : Except Failure (Dict String) := do
  let keys ← model.resolveKeys attributes .primary
  addIndexKeys model attributes keys model.indexes

end Model

/-- Keys as the attributes of an item. -/
def keyItem (keys : Dict String) : Dict Value := keys.map .string

end SingleTable
