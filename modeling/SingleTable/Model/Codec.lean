import SingleTable.Json.Record
import SingleTable.Model.Basic

/-!
# Models as documents

A model is written as an object in which each list of definitions is an object in order of
declaration, each definition under its name. Reading keeps the order and rejects a list that defines
a name twice. Empty lists of indexes and attributes are left out.
-/

set_option autoImplicit false

namespace SingleTable

open Json

variable {α : Type}

/-! ## Writing -/

/-- The document of a list of key attributes. -/
def keyTree (definitions : List KeyDefinition) : Tree :=
  .record (definitions.map fun definition =>
    (definition.name, .record [("value", .text definition.template)]))

/-- The document of a list of indexes. -/
def indexTree (indexes : List IndexDefinition) : Tree :=
  .record (indexes.map fun index => (index.name, keyTree index.key))

/-- The members of an attribute definition: the declared kind, and `required` if it holds. -/
def attributeMembers (definition : AttributeDefinition) : List (String × Tree) :=
  (match definition.kind with
    | some kind => [("type", .text kind.tag)]
    | none => []) ++
  (if definition.required then [("required", .boolean true)] else [])

/-- The document of a list of attributes. -/
def attributeTree (attributes : List AttributeDefinition) : Tree :=
  .record (attributes.map fun definition =>
    (definition.name, .record (attributeMembers definition)))

/-- The document of a model. -/
def Model.toTree (model : Model) : Tree :=
  .record
    ([("name", .text model.name), ("tableName", .text model.table), ("key", keyTree model.key)] ++
      (if model.indexes.isEmpty then [] else [("index", indexTree model.indexes)]) ++
      (if model.attributes.isEmpty then [] else [("attributes", attributeTree model.attributes)]))

/-- The text of a model. -/
def Model.toJson (model : Model) : String := model.toTree.toText

/-! ## Reading -/

/-- Reads the definitions of a list in document order. A name that was seen before is reported when
its definition has been read. -/
def readDefinitions (read : Tree → Read α) (seen : List String) :
    List (Option String × Tree) → Read (List (String × α))
  | [] => .ok []
  | (none, _) :: _ => .error .malformed
  | (some name, tree) :: rest => do
    let value ← read tree
    if name ∈ seen then .error (.duplicateDefinition name)
    else do
      let values ← readDefinitions read (name :: seen) rest
      .ok ((name, value) :: values)

/-- Reads an object of uniquely named definitions. -/
def readNamed (read : Nat → Tree → Read α) : Nat → Tree → Read (List (String × α))
  | depth + 1, .object members => readDefinitions (read depth) [] members
  | _, _ => .error .malformed

/-- Reads the template of a key attribute. -/
def readTemplate (depth : Nat) (tree : Tree) : Read String := do
  let members ← readMembersOf [⟨"value", false⟩] depth tree
  required members "value" readText

/-- Reads a list of key attributes. -/
def readKey (depth : Nat) (tree : Tree) : Read (List KeyDefinition) := do
  let definitions ← readNamed readTemplate depth tree
  .ok (definitions.map fun (name, template) => ⟨name, template⟩)

/-- Reads a list of indexes. -/
def readIndexes (depth : Nat) (tree : Tree) : Read (List IndexDefinition) := do
  let definitions ← readNamed readKey depth tree
  .ok (definitions.map fun (name, key) => ⟨name, key⟩)

/-- Reads what is declared of an attribute: its kind, and whether it is required. -/
def readAttribute : Nat → Tree → Read (Option ValueType × Bool)
  | 0, _ => .error .malformed
  | depth + 1, tree => do
    let members ← readMembersOf [⟨"type", true⟩, ⟨"required", true⟩] (depth + 1) tree
    let kind ← optional members "type" (readTag ValueType.ofTag? depth)
    let required ← withDefault members "required" false readBoolean
    .ok (kind, required)

/-- Reads a list of attributes. -/
def readAttributes (depth : Nat) (tree : Tree) : Read (List AttributeDefinition) := do
  let definitions ← readNamed readAttribute depth tree
  .ok (definitions.map fun (name, kind, required) => ⟨name, kind, required⟩)

/-- A part of a model. -/
inductive ModelPart where
  | text (value : String)
  | key (definitions : List KeyDefinition)
  | indexes (indexes : List IndexDefinition)
  | attributes (attributes : List AttributeDefinition)

/-- The members of a model. -/
def modelFields : List Field :=
  [⟨"name", false⟩, ⟨"tableName", false⟩, ⟨"key", false⟩, ⟨"index", true⟩, ⟨"attributes", true⟩]

/-- Reads the part of a model under a name. -/
def readPart (depth : Nat) (name : String) (tree : Tree) : Read ModelPart :=
  if name = "key" then (readKey depth tree).map .key
  else if name = "index" then (readIndexes depth tree).map .indexes
  else if name = "attributes" then (readAttributes depth tree).map .attributes
  else (readText tree).map .text

/-- Reads a model. -/
def Model.read (depth : Nat) (tree : Tree) : Read Model := do
  let parts ← readRecord modelFields readPart depth tree
  match findEntry "name" parts, findEntry "tableName" parts, findEntry "key" parts with
  | some (.text name), some (.text table), some (.key key) =>
    let indexes := match findEntry "index" parts with
      | some (.indexes indexes) => indexes
      | _ => []
    let attributes := match findEntry "attributes" parts with
      | some (.attributes attributes) => attributes
      | _ => []
    .ok ⟨name, table, key, indexes, attributes⟩
  | _, _, _ => .error .malformed

/-- Reads the text of a model. -/
def Model.ofJson (text : String) : Read Model := readDocument Model.read text

end SingleTable
