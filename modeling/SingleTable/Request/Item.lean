import SingleTable.Expression.Handle
import SingleTable.Expression.Update
import SingleTable.Model.Keys
import SingleTable.Request.Basic
import SingleTable.Request.Chain
import SingleTable.Settings

/-!
# Requests for one item

Drafts of the requests that address one item by its attributes. Building a draft resolves the physical
keys under the model and compiles what was collected. A put also writes the keys of every index that
holds the item.
-/

set_option autoImplicit false

namespace SingleTable

/-- The primary key of the item with the given attributes. -/
def Model.primaryKey (model : Model) (attributes : Dict Value) : Except Failure (Dict Value) :=
  (model.resolveKeys attributes .primary).map keyItem

/-- The consistency of a read under settings, which only turn on what was left open. -/
def Settings.consistency (settings : Settings) (current : Option Bool) : Option Bool :=
  if settings.consistentRead && current.isNone then some true else current

/-! ## Get -/

/-- A draft of a read of one item. -/
structure Get where
  /-- The model of the item. -/
  model : Model
  /-- The attributes that the key is resolved from. -/
  attributes : Dict Value
  /-- The attributes to return. -/
  projected : List Handle := []
  /-- Whether the read is strongly consistent. -/
  consistentRead : Option Bool := none

namespace Get

/-- Applies settings to what was left open. -/
def withSettings (get : Get) (settings : Settings) : Get :=
  { get with consistentRead := settings.consistency get.consistentRead }

/-- Adds attributes to return. -/
def project (get : Get) (handles : List Handle) : Get :=
  { get with projected := get.projected ++ handles }

/-- Sets the consistency of the read. -/
def withConsistency (get : Get) (consistent : Bool) : Get :=
  { get with consistentRead := some consistent }

/-- The request of a draft. -/
def build (get : Get) : Except Failure GetRequest := do
  let key ← get.model.primaryKey get.attributes
  let projected := projection get.projected
  .ok
    { tableName := get.model.table
      key
      consistentRead := get.consistentRead
      projectionExpression := projected.text?
      names := projected.names }

end Get

/-! ## Put -/

/-- A draft of a write of one item. -/
structure Put where
  /-- The model of the item. -/
  model : Model
  /-- The attributes of the item. -/
  item : Dict Value
  /-- What the stored item has to satisfy. -/
  chain : Chain := {}
  /-- What the write returns. -/
  returnValues : Option ReturnMode := none

namespace Put

/-- Adds a condition. -/
def condition (put : Put) (condition : Minting Condition) : Put :=
  { put with chain := put.chain.push condition }

/-- Adds the condition that no item has the primary key. A model without keys adds nothing. -/
def ifAbsent (put : Put) : Put :=
  match put.model.key with
  | [] => put
  | first :: _ => put.condition (Test.absent ⟨first.name, none⟩).build

/-- Sets what the write returns. -/
def returning (put : Put) (mode : ReturnMode) : Put := { put with returnValues := some mode }

/-- The request of a draft. -/
def build (put : Put) : Except Failure PutRequest := do
  let keys ← put.model.resolveItemKeys put.item
  let condition := put.chain.compile
  .ok
    { tableName := put.model.table
      item := put.item.extend (keyItem keys)
      conditionExpression := condition.text?
      names := condition.names
      values := condition.values
      returnValues := put.returnValues }

end Put

/-! ## Update -/

/-- A draft of a change of one item. -/
structure Update where
  /-- The model of the item. -/
  model : Model
  /-- The attributes that the key is resolved from. -/
  attributes : Dict Value
  /-- What the stored item has to satisfy. -/
  chain : Chain := {}
  /-- The changes. -/
  changes : ChangeSet := {}
  /-- What the write returns. -/
  returnValues : Option ReturnMode := none

namespace Update

/-- Records changes with the counter of the request. -/
def record (update : Update) (recording : ChangeSet → Minting ChangeSet) : Update :=
  let (changes, next) := (recording update.changes).run update.chain.next
  { update with changes, chain := { update.chain with next } }

/-- Adds a condition. -/
def condition (update : Update) (condition : Minting Condition) : Update :=
  { update with chain := update.chain.push condition }

/-- Sets what the write returns. -/
def returning (update : Update) (mode : ReturnMode) : Update :=
  { update with returnValues := some mode }

/-- The request of a draft. -/
def build (update : Update) : Except Failure UpdateRequest := do
  let key ← update.model.primaryKey update.attributes
  let changes := update.changes.compile
  let condition := update.chain.compile
  let merged := (Fragment.merge {} changes).merge condition
  .ok
    { tableName := update.model.table
      key
      updateExpression := changes.text?
      conditionExpression := condition.text?
      names := merged.names
      values := merged.values
      returnValues := update.returnValues }

end Update

/-! ## Delete -/

/-- A draft of a deletion of one item. -/
structure Delete where
  /-- The model of the item. -/
  model : Model
  /-- The attributes that the key is resolved from. -/
  attributes : Dict Value
  /-- What the stored item has to satisfy. -/
  chain : Chain := {}
  /-- What the write returns. -/
  returnValues : Option ReturnMode := none

namespace Delete

/-- Adds a condition. -/
def condition (delete : Delete) (condition : Minting Condition) : Delete :=
  { delete with chain := delete.chain.push condition }

/-- Sets what the write returns. -/
def returning (delete : Delete) (mode : ReturnMode) : Delete :=
  { delete with returnValues := some mode }

/-- The request of a draft. -/
def build (delete : Delete) : Except Failure DeleteRequest := do
  let key ← delete.model.primaryKey delete.attributes
  let condition := delete.chain.compile
  .ok
    { tableName := delete.model.table
      key
      conditionExpression := condition.text?
      names := condition.names
      values := condition.values
      returnValues := delete.returnValues }

end Delete

end SingleTable
