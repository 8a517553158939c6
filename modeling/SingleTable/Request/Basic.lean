import SingleTable.Dict
import SingleTable.Value.Basic

/-!
# Requests

What the table is asked to do. A request holds the texts of its expressions together with the names and
values of their placeholders; whatever it does not ask for is absent.
-/

set_option autoImplicit false

namespace SingleTable

/-- Which attributes a write returns. -/
inductive ReturnMode where
  | none
  | allOld
  | updatedOld
  | allNew
  | updatedNew
  deriving DecidableEq

namespace ReturnMode

/-- The tag of a mode. -/
def tag : ReturnMode → String
  | none => "NONE"
  | allOld => "ALL_OLD"
  | updatedOld => "UPDATED_OLD"
  | allNew => "ALL_NEW"
  | updatedNew => "UPDATED_NEW"

/-- The mode of a tag. -/
def ofTag? : String → Option ReturnMode
  | "NONE" => some none
  | "ALL_OLD" => some allOld
  | "UPDATED_OLD" => some updatedOld
  | "ALL_NEW" => some allNew
  | "UPDATED_NEW" => some updatedNew
  | _ => Option.none

/-- The tag of a mode is read as that mode. -/
@[simp] theorem ofTag?_tag (mode : ReturnMode) : ofTag? mode.tag = some mode := by
  cases mode <;> rfl

end ReturnMode

/-- What a read returns of each item. -/
inductive SelectMode where
  | allAttributes
  | allProjectedAttributes
  | specificAttributes
  | count
  deriving DecidableEq

namespace SelectMode

/-- The tag of a mode. -/
def tag : SelectMode → String
  | allAttributes => "ALL_ATTRIBUTES"
  | allProjectedAttributes => "ALL_PROJECTED_ATTRIBUTES"
  | specificAttributes => "SPECIFIC_ATTRIBUTES"
  | count => "COUNT"

/-- The mode of a tag. -/
def ofTag? : String → Option SelectMode
  | "ALL_ATTRIBUTES" => some allAttributes
  | "ALL_PROJECTED_ATTRIBUTES" => some allProjectedAttributes
  | "SPECIFIC_ATTRIBUTES" => some specificAttributes
  | "COUNT" => some count
  | _ => none

/-- The tag of a mode is read as that mode. -/
@[simp] theorem ofTag?_tag (mode : SelectMode) : ofTag? mode.tag = some mode := by
  cases mode <;> rfl

end SelectMode

/-- A read of one item. -/
structure GetRequest where
  /-- The table. -/
  tableName : String
  /-- The primary key of the item. -/
  key : Dict Value
  /-- Whether the read is strongly consistent. -/
  consistentRead : Option Bool := none
  /-- The attributes to return. -/
  projectionExpression : Option String := none
  /-- The names of name tokens. -/
  names : Dict String := .empty
  deriving DecidableEq

/-- A write of one item. -/
structure PutRequest where
  /-- The table. -/
  tableName : String
  /-- The item with its physical keys. -/
  item : Dict Value
  /-- What the stored item has to satisfy. -/
  conditionExpression : Option String := none
  /-- The names of name tokens. -/
  names : Dict String := .empty
  /-- The values of value placeholders. -/
  values : Dict Value := .empty
  /-- What the write returns. -/
  returnValues : Option ReturnMode := none
  deriving DecidableEq

/-- A change of one item. -/
structure UpdateRequest where
  /-- The table. -/
  tableName : String
  /-- The primary key of the item. -/
  key : Dict Value
  /-- The change. -/
  updateExpression : Option String := none
  /-- What the stored item has to satisfy. -/
  conditionExpression : Option String := none
  /-- The names of name tokens. -/
  names : Dict String := .empty
  /-- The values of value placeholders. -/
  values : Dict Value := .empty
  /-- What the write returns. -/
  returnValues : Option ReturnMode := none
  deriving DecidableEq

/-- A deletion of one item. -/
structure DeleteRequest where
  /-- The table. -/
  tableName : String
  /-- The primary key of the item. -/
  key : Dict Value
  /-- What the stored item has to satisfy. -/
  conditionExpression : Option String := none
  /-- The names of name tokens. -/
  names : Dict String := .empty
  /-- The values of value placeholders. -/
  values : Dict Value := .empty
  /-- What the write returns. -/
  returnValues : Option ReturnMode := none
  deriving DecidableEq

/-- A read of a range of keys. -/
structure QueryRequest where
  /-- The table. -/
  tableName : String
  /-- The index whose keys are read. -/
  indexName : Option String := none
  /-- The range of keys. -/
  keyConditionExpression : Option String := none
  /-- What a read item has to satisfy. -/
  filterExpression : Option String := none
  /-- The attributes to return. -/
  projectionExpression : Option String := none
  /-- The names of name tokens. -/
  names : Dict String := .empty
  /-- The values of value placeholders. -/
  values : Dict Value := .empty
  /-- Whether the range is read in ascending order. -/
  scanIndexForward : Option Bool := none
  /-- The number of items on a page. -/
  limit : Option Int32 := none
  /-- The key behind which the page starts. -/
  exclusiveStartKey : Dict Value := .empty
  /-- What is returned of each item. -/
  select : Option SelectMode := none
  /-- Whether the read is strongly consistent. -/
  consistentRead : Option Bool := none
  deriving DecidableEq

/-- A read of a whole table or index. -/
structure ScanRequest where
  /-- The table. -/
  tableName : String
  /-- The index that is read. -/
  indexName : Option String := none
  /-- What a read item has to satisfy. -/
  filterExpression : Option String := none
  /-- The attributes to return. -/
  projectionExpression : Option String := none
  /-- The names of name tokens. -/
  names : Dict String := .empty
  /-- The values of value placeholders. -/
  values : Dict Value := .empty
  /-- The number of items on a page. -/
  limit : Option Int32 := none
  /-- The key behind which the page starts. -/
  exclusiveStartKey : Dict Value := .empty
  /-- The segment of a parallel read. -/
  segment : Option Int32 := none
  /-- The number of segments of a parallel read. -/
  totalSegments : Option Int32 := none
  /-- What is returned of each item. -/
  select : Option SelectMode := none
  /-- Whether the read is strongly consistent. -/
  consistentRead : Option Bool := none
  deriving DecidableEq

end SingleTable
