import SingleTable.Plan.Planner
import SingleTable.Request.Item

/-!
# Requests for many items

Drafts of the requests that read a range of keys or a whole table. A query plans its condition and
fails if nothing of it selects keys; a scan takes its whole condition as a filter.
-/

set_option autoImplicit false

namespace SingleTable

/-! ## Query -/

/-- A draft of a read of a range of keys. -/
structure Query where
  /-- The model of the items. -/
  model : Model
  /-- The index whose keys are read. -/
  index : Option String := none
  /-- What an item has to satisfy. -/
  chain : Chain := {}
  /-- The attributes to return. -/
  projected : List Handle := []
  /-- What happens about shadowed keys. -/
  policy : SharedKeyPolicy := .warn
  /-- The number of items on a page. -/
  limit : Option Int32 := none
  /-- Whether the range is read in ascending order. -/
  scanIndexForward : Option Bool := none
  /-- The key behind which the page starts. -/
  exclusiveStartKey : Dict Value := .empty
  /-- What is returned of each item. -/
  select : Option SelectMode := none
  /-- Whether the read is strongly consistent. -/
  consistentRead : Option Bool := none

namespace Query

/-- Applies settings: the policy, and the consistency if it was left open. -/
def withSettings (query : Query) (settings : Settings) : Query :=
  { query with
    policy := settings.policy
    consistentRead := settings.consistency query.consistentRead }

/-- Reads an index. -/
def onIndex (query : Query) (name : String) : Query := { query with index := some name }

/-- Adds a condition that is made with the counter of the query. -/
def condition (query : Query) (condition : Minting Condition) : Query :=
  { query with chain := query.chain.push condition }

/-- Adds a condition that is already made. Its placeholders have to differ from the others of the
query. -/
def withCondition (query : Query) (condition : Condition) : Query :=
  { query with chain := query.chain.add condition }

/-- Adds attributes to return. -/
def project (query : Query) (handles : List Handle) : Query :=
  { query with projected := query.projected ++ handles }

/-- Sets what happens about shadowed keys. -/
def withPolicy (query : Query) (policy : SharedKeyPolicy) : Query := { query with policy }

/-- Sets the number of items on a page. -/
def withLimit (query : Query) (limit : Int32) : Query := { query with limit := some limit }

/-- Sets the direction of the read. -/
def forward (query : Query) (ascending : Bool) : Query :=
  { query with scanIndexForward := some ascending }

/-- Sets the key behind which the page starts. -/
def startingAfter (query : Query) (key : Dict Value) : Query :=
  { query with exclusiveStartKey := key }

/-- Sets what is returned of each item. -/
def selecting (query : Query) (mode : SelectMode) : Query := { query with select := some mode }

/-- Sets the consistency of the read. -/
def withConsistency (query : Query) (consistent : Bool) : Query :=
  { query with consistentRead := some consistent }

/-- The planner of a query. -/
def planner (query : Query) : Except Failure Planner := do
  let planner ← match query.index with
    | some index => Planner.ofIndex query.model index
    | none => .ok (Planner.ofModel query.model)
  .ok { planner with policy := query.policy }

/-- The request of a draft, with the warnings of its plan. -/
def build (query : Query) : Except Failure (QueryRequest × List Warning) := do
  let planner ← query.planner
  let (plan, warnings) ← planner.plan query.chain.combined
  if plan.keyConditions.isEmpty then .error (.missingKeyCondition query.model.name)
  else
    let key := plan.keyExpression
    let filter := plan.filterExpression
    let projected := projection query.projected
    -- The filter is written over the key conditions, which matters where they share a placeholder.
    let merged := ((Fragment.merge {} key).merge filter).merge projected
    .ok (
      { tableName := query.model.table
        indexName := query.index
        keyConditionExpression := key.text?
        filterExpression := filter.text?
        projectionExpression := projected.text?
        names := merged.names
        values := merged.values
        scanIndexForward := query.scanIndexForward
        limit := query.limit
        exclusiveStartKey := query.exclusiveStartKey
        select := query.select
        consistentRead := query.consistentRead }, warnings)

end Query

/-! ## Scan -/

/-- A draft of a read of a whole table or index. -/
structure Scan where
  /-- The model of the items. -/
  model : Model
  /-- The index that is read. -/
  index : Option String := none
  /-- What an item has to satisfy. -/
  chain : Chain := {}
  /-- The attributes to return. -/
  projected : List Handle := []
  /-- The number of items on a page. -/
  limit : Option Int32 := none
  /-- The key behind which the page starts. -/
  exclusiveStartKey : Dict Value := .empty
  /-- The segment of a parallel read and the number of segments. -/
  segment : Option (Int32 × Int32) := none
  /-- What is returned of each item. -/
  select : Option SelectMode := none
  /-- Whether the read is strongly consistent. -/
  consistentRead : Option Bool := none

namespace Scan

/-- Applies settings to what was left open. -/
def withSettings (scan : Scan) (settings : Settings) : Scan :=
  { scan with consistentRead := settings.consistency scan.consistentRead }

/-- Reads an index. -/
def onIndex (scan : Scan) (name : String) : Scan := { scan with index := some name }

/-- Adds a condition. -/
def condition (scan : Scan) (condition : Minting Condition) : Scan :=
  { scan with chain := scan.chain.push condition }

/-- Adds attributes to return. -/
def project (scan : Scan) (handles : List Handle) : Scan :=
  { scan with projected := scan.projected ++ handles }

/-- Sets the number of items on a page. -/
def withLimit (scan : Scan) (limit : Int32) : Scan := { scan with limit := some limit }

/-- Sets the key behind which the page starts. -/
def startingAfter (scan : Scan) (key : Dict Value) : Scan := { scan with exclusiveStartKey := key }

/-- Reads one segment of a parallel read. -/
def ofSegment (scan : Scan) (segment total : Int32) : Scan :=
  { scan with segment := some (segment, total) }

/-- Sets what is returned of each item. -/
def selecting (scan : Scan) (mode : SelectMode) : Scan := { scan with select := some mode }

/-- Sets the consistency of the read. -/
def withConsistency (scan : Scan) (consistent : Bool) : Scan :=
  { scan with consistentRead := some consistent }

/-- The index of a scan, if the model has it. -/
def checkIndex (scan : Scan) : Except Failure Unit :=
  match scan.index with
  | none => .ok ()
  | some index =>
    match scan.model.index? index with
    | some _ => .ok ()
    | none => .error (.unknownIndex scan.model.name index)

/-- The request of a draft. -/
def build (scan : Scan) : Except Failure ScanRequest := do
  scan.checkIndex
  let filter := scan.chain.compile
  let projected := projection scan.projected
  let merged := (Fragment.merge {} filter).merge projected
  .ok
    { tableName := scan.model.table
      indexName := scan.index
      filterExpression := filter.text?
      projectionExpression := projected.text?
      names := merged.names
      values := merged.values
      limit := scan.limit
      exclusiveStartKey := scan.exclusiveStartKey
      segment := scan.segment.map Prod.fst
      totalSegments := scan.segment.map Prod.snd
      select := scan.select
      consistentRead := scan.consistentRead }

end Scan

end SingleTable
