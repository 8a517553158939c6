import SingleTable.Request.Basic
import SingleTable.Value.Codec

/-!
# Requests as documents

The wire form of a request: an object whose members stand in a fixed order. Absent members and empty
dictionaries are left out, except for the key or item that a request is about. Reading gives back the
request that was written.
-/

set_option autoImplicit false

namespace SingleTable

open Json

variable {α : Type}

/-! ## Members -/

/-- A member that is written if it is present. -/
def memberOf (name : String) (tree : α → Tree) : Option α → List (String × Tree)
  | some value => [(name, tree value)]
  | none => []

/-- The document of a dictionary. -/
def dictTree (tree : α → Tree) (dict : Dict α) : Tree :=
  .record (dict.entries.map fun (name, value) => (name, tree value))

/-- A dictionary that is written if it is not empty. -/
def dictMemberOf (name : String) (tree : α → Tree) (dict : Dict α) : List (String × Tree) :=
  if dict.isEmpty then [] else [(name, dictTree tree dict)]

/-- The document of an integer of 32 bits. -/
def int32Tree (value : Int32) : Tree := .number value.toInt

/-- Reads a dictionary of texts. -/
def readNames (depth : Nat) (tree : Tree) : Read (Dict String) :=
  readDict (fun _ => readText) depth tree

/-- Reads a dictionary of values. -/
def readValues (depth : Nat) (tree : Tree) : Read (Dict Value) := readDict Value.read depth tree

/-! ## Get -/

namespace GetRequest

/-- The members of the wire form. -/
def members (request : GetRequest) : List (String × Tree) :=
  [("TableName", .text request.tableName), ("Key", dictTree Value.toTree request.key)] ++
    memberOf "ConsistentRead" .boolean request.consistentRead ++
    memberOf "ProjectionExpression" .text request.projectionExpression ++
    dictMemberOf "ExpressionAttributeNames" .text request.names

/-- The text of the wire form. -/
def toJson (request : GetRequest) : String := (Tree.record request.members).toText

/-- The members in order of declaration. -/
def fields : List Field :=
  [⟨"TableName", false⟩, ⟨"Key", false⟩, ⟨"ConsistentRead", false⟩,
    ⟨"ProjectionExpression", false⟩, ⟨"ExpressionAttributeNames", true⟩]

/-- Reads the wire form. -/
def read : Nat → Tree → Read GetRequest
  | 0, _ => .error .malformed
  | depth + 1, tree => do
    let members ← readMembersOf fields (depth + 1) tree
    let tableName ← required members "TableName" readText
    let key ← required members "Key" (readValues depth)
    let consistentRead ← optional members "ConsistentRead" readBoolean
    let projectionExpression ← optional members "ProjectionExpression" readText
    let names ← withDefault members "ExpressionAttributeNames" .empty (readNames depth)
    .ok { tableName, key, consistentRead, projectionExpression, names }

end GetRequest

/-! ## Put -/

namespace PutRequest

/-- The members of the wire form. -/
def members (request : PutRequest) : List (String × Tree) :=
  [("TableName", .text request.tableName), ("Item", dictTree Value.toTree request.item)] ++
    memberOf "ConditionExpression" .text request.conditionExpression ++
    dictMemberOf "ExpressionAttributeNames" .text request.names ++
    dictMemberOf "ExpressionAttributeValues" Value.toTree request.values ++
    memberOf "ReturnValues" (fun mode => .text mode.tag) request.returnValues

/-- The text of the wire form. -/
def toJson (request : PutRequest) : String := (Tree.record request.members).toText

/-- The members in order of declaration. -/
def fields : List Field :=
  [⟨"TableName", false⟩, ⟨"Item", false⟩, ⟨"ConditionExpression", false⟩,
    ⟨"ExpressionAttributeNames", true⟩, ⟨"ExpressionAttributeValues", true⟩,
    ⟨"ReturnValues", false⟩]

/-- Reads the wire form. -/
def read : Nat → Tree → Read PutRequest
  | 0, _ => .error .malformed
  | depth + 1, tree => do
    let members ← readMembersOf fields (depth + 1) tree
    let tableName ← required members "TableName" readText
    let item ← required members "Item" (readValues depth)
    let conditionExpression ← optional members "ConditionExpression" readText
    let names ← withDefault members "ExpressionAttributeNames" .empty (readNames depth)
    let values ← withDefault members "ExpressionAttributeValues" .empty (readValues depth)
    let returnValues ← optional members "ReturnValues" (readTag ReturnMode.ofTag? depth)
    .ok { tableName, item, conditionExpression, names, values, returnValues }

end PutRequest

/-! ## Update -/

namespace UpdateRequest

/-- The members of the wire form. -/
def members (request : UpdateRequest) : List (String × Tree) :=
  [("TableName", .text request.tableName), ("Key", dictTree Value.toTree request.key)] ++
    memberOf "UpdateExpression" .text request.updateExpression ++
    memberOf "ConditionExpression" .text request.conditionExpression ++
    dictMemberOf "ExpressionAttributeNames" .text request.names ++
    dictMemberOf "ExpressionAttributeValues" Value.toTree request.values ++
    memberOf "ReturnValues" (fun mode => .text mode.tag) request.returnValues

/-- The text of the wire form. -/
def toJson (request : UpdateRequest) : String := (Tree.record request.members).toText

/-- The members in order of declaration. -/
def fields : List Field :=
  [⟨"TableName", false⟩, ⟨"Key", false⟩, ⟨"UpdateExpression", false⟩,
    ⟨"ConditionExpression", false⟩, ⟨"ExpressionAttributeNames", true⟩,
    ⟨"ExpressionAttributeValues", true⟩, ⟨"ReturnValues", false⟩]

/-- Reads the wire form. -/
def read : Nat → Tree → Read UpdateRequest
  | 0, _ => .error .malformed
  | depth + 1, tree => do
    let members ← readMembersOf fields (depth + 1) tree
    let tableName ← required members "TableName" readText
    let key ← required members "Key" (readValues depth)
    let updateExpression ← optional members "UpdateExpression" readText
    let conditionExpression ← optional members "ConditionExpression" readText
    let names ← withDefault members "ExpressionAttributeNames" .empty (readNames depth)
    let values ← withDefault members "ExpressionAttributeValues" .empty (readValues depth)
    let returnValues ← optional members "ReturnValues" (readTag ReturnMode.ofTag? depth)
    .ok { tableName, key, updateExpression, conditionExpression, names, values, returnValues }

end UpdateRequest

/-! ## Delete -/

namespace DeleteRequest

/-- The members of the wire form. -/
def members (request : DeleteRequest) : List (String × Tree) :=
  [("TableName", .text request.tableName), ("Key", dictTree Value.toTree request.key)] ++
    memberOf "ConditionExpression" .text request.conditionExpression ++
    dictMemberOf "ExpressionAttributeNames" .text request.names ++
    dictMemberOf "ExpressionAttributeValues" Value.toTree request.values ++
    memberOf "ReturnValues" (fun mode => .text mode.tag) request.returnValues

/-- The text of the wire form. -/
def toJson (request : DeleteRequest) : String := (Tree.record request.members).toText

/-- The members in order of declaration. -/
def fields : List Field :=
  [⟨"TableName", false⟩, ⟨"Key", false⟩, ⟨"ConditionExpression", false⟩,
    ⟨"ExpressionAttributeNames", true⟩, ⟨"ExpressionAttributeValues", true⟩,
    ⟨"ReturnValues", false⟩]

/-- Reads the wire form. -/
def read : Nat → Tree → Read DeleteRequest
  | 0, _ => .error .malformed
  | depth + 1, tree => do
    let members ← readMembersOf fields (depth + 1) tree
    let tableName ← required members "TableName" readText
    let key ← required members "Key" (readValues depth)
    let conditionExpression ← optional members "ConditionExpression" readText
    let names ← withDefault members "ExpressionAttributeNames" .empty (readNames depth)
    let values ← withDefault members "ExpressionAttributeValues" .empty (readValues depth)
    let returnValues ← optional members "ReturnValues" (readTag ReturnMode.ofTag? depth)
    .ok { tableName, key, conditionExpression, names, values, returnValues }

end DeleteRequest

/-! ## Query -/

namespace QueryRequest

/-- The members of the wire form. -/
def members (request : QueryRequest) : List (String × Tree) :=
  [("TableName", .text request.tableName)] ++
    memberOf "IndexName" .text request.indexName ++
    memberOf "KeyConditionExpression" .text request.keyConditionExpression ++
    memberOf "FilterExpression" .text request.filterExpression ++
    memberOf "ProjectionExpression" .text request.projectionExpression ++
    dictMemberOf "ExpressionAttributeNames" .text request.names ++
    dictMemberOf "ExpressionAttributeValues" Value.toTree request.values ++
    memberOf "ScanIndexForward" .boolean request.scanIndexForward ++
    memberOf "Limit" int32Tree request.limit ++
    dictMemberOf "ExclusiveStartKey" Value.toTree request.exclusiveStartKey ++
    memberOf "Select" (fun mode => .text mode.tag) request.select ++
    memberOf "ConsistentRead" .boolean request.consistentRead

/-- The text of the wire form. -/
def toJson (request : QueryRequest) : String := (Tree.record request.members).toText

/-- The members in order of declaration. -/
def fields : List Field :=
  [⟨"TableName", false⟩, ⟨"IndexName", false⟩, ⟨"KeyConditionExpression", false⟩,
    ⟨"FilterExpression", false⟩, ⟨"ProjectionExpression", false⟩,
    ⟨"ExpressionAttributeNames", true⟩, ⟨"ExpressionAttributeValues", true⟩,
    ⟨"ScanIndexForward", false⟩, ⟨"Limit", false⟩, ⟨"ExclusiveStartKey", true⟩,
    ⟨"Select", false⟩, ⟨"ConsistentRead", false⟩]

/-- Reads the wire form. -/
def read : Nat → Tree → Read QueryRequest
  | 0, _ => .error .malformed
  | depth + 1, tree => do
    let members ← readMembersOf fields (depth + 1) tree
    let tableName ← required members "TableName" readText
    let indexName ← optional members "IndexName" readText
    let keyConditionExpression ← optional members "KeyConditionExpression" readText
    let filterExpression ← optional members "FilterExpression" readText
    let projectionExpression ← optional members "ProjectionExpression" readText
    let names ← withDefault members "ExpressionAttributeNames" .empty (readNames depth)
    let values ← withDefault members "ExpressionAttributeValues" .empty (readValues depth)
    let scanIndexForward ← optional members "ScanIndexForward" readBoolean
    let limit ← optional members "Limit" readInt32
    let exclusiveStartKey ← withDefault members "ExclusiveStartKey" .empty (readValues depth)
    let select ← optional members "Select" (readTag SelectMode.ofTag? depth)
    let consistentRead ← optional members "ConsistentRead" readBoolean
    .ok { tableName, indexName, keyConditionExpression, filterExpression, projectionExpression,
          names, values, scanIndexForward, limit, exclusiveStartKey, select, consistentRead }

end QueryRequest

/-! ## Scan -/

namespace ScanRequest

/-- The members of the wire form. -/
def members (request : ScanRequest) : List (String × Tree) :=
  [("TableName", .text request.tableName)] ++
    memberOf "IndexName" .text request.indexName ++
    memberOf "FilterExpression" .text request.filterExpression ++
    memberOf "ProjectionExpression" .text request.projectionExpression ++
    dictMemberOf "ExpressionAttributeNames" .text request.names ++
    dictMemberOf "ExpressionAttributeValues" Value.toTree request.values ++
    memberOf "Limit" int32Tree request.limit ++
    dictMemberOf "ExclusiveStartKey" Value.toTree request.exclusiveStartKey ++
    memberOf "Segment" int32Tree request.segment ++
    memberOf "TotalSegments" int32Tree request.totalSegments ++
    memberOf "Select" (fun mode => .text mode.tag) request.select ++
    memberOf "ConsistentRead" .boolean request.consistentRead

/-- The text of the wire form. -/
def toJson (request : ScanRequest) : String := (Tree.record request.members).toText

/-- The members in order of declaration. -/
def fields : List Field :=
  [⟨"TableName", false⟩, ⟨"IndexName", false⟩, ⟨"FilterExpression", false⟩,
    ⟨"ProjectionExpression", false⟩, ⟨"ExpressionAttributeNames", true⟩,
    ⟨"ExpressionAttributeValues", true⟩, ⟨"Limit", false⟩, ⟨"ExclusiveStartKey", true⟩,
    ⟨"Segment", false⟩, ⟨"TotalSegments", false⟩, ⟨"Select", false⟩, ⟨"ConsistentRead", false⟩]

/-- Reads the wire form. -/
def read : Nat → Tree → Read ScanRequest
  | 0, _ => .error .malformed
  | depth + 1, tree => do
    let members ← readMembersOf fields (depth + 1) tree
    let tableName ← required members "TableName" readText
    let indexName ← optional members "IndexName" readText
    let filterExpression ← optional members "FilterExpression" readText
    let projectionExpression ← optional members "ProjectionExpression" readText
    let names ← withDefault members "ExpressionAttributeNames" .empty (readNames depth)
    let values ← withDefault members "ExpressionAttributeValues" .empty (readValues depth)
    let limit ← optional members "Limit" readInt32
    let exclusiveStartKey ← withDefault members "ExclusiveStartKey" .empty (readValues depth)
    let segment ← optional members "Segment" readInt32
    let totalSegments ← optional members "TotalSegments" readInt32
    let select ← optional members "Select" (readTag SelectMode.ofTag? depth)
    let consistentRead ← optional members "ConsistentRead" readBoolean
    .ok { tableName, indexName, filterExpression, projectionExpression, names, values, limit,
          exclusiveStartKey, segment, totalSegments, select, consistentRead }

end ScanRequest

end SingleTable
