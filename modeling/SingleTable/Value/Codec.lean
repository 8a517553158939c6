import SingleTable.Json.Record
import SingleTable.Text.Base64
import SingleTable.Value.Basic

/-!
# Values as documents

A value is written as an object with one member: its tag, and its content under it. Numbers are
texts, bytes are Base64 texts, maps are objects.
-/

set_option autoImplicit false

namespace SingleTable.Value

open Json

/-! ## Writing -/

/-- The text of a byte string. -/
def bytesText (bytes : List UInt8) : String := String.ofList (Text.Base64.encode bytes)

mutual

/-- The document of a value. -/
def toTree : Value → Tree
  | .string text => .record [("S", .text text)]
  | .number digits => .record [("N", .text digits)]
  | .binary bytes => .record [("B", .text (bytesText bytes))]
  | .stringSet items => .record [("SS", .array (items.map .text))]
  | .numberSet items => .record [("NS", .array (items.map .text))]
  | .binarySet items => .record [("BS", .array (items.map fun bytes => .text (bytesText bytes)))]
  | .boolean value => .record [("BOOL", .boolean value)]
  | .null value => .record [("NULL", .boolean value)]
  | .list items => .record [("L", .array (itemTrees items))]
  | .map entries => .record [("M", .object (entryTrees entries))]

/-- The documents of the items of a list. -/
def itemTrees : List Value → List Tree
  | [] => []
  | item :: rest => toTree item :: itemTrees rest

/-- The members of the entries of a map. -/
def entryTrees : List (String × Value) → List (Option String × Tree)
  | [] => []
  | (name, value) :: rest => (some name, toTree value) :: entryTrees rest

end

/-- The text of a value. -/
def toJson (value : Value) : String := value.toTree.toText

/-! ## Reading -/

/-- Reads a byte string. -/
def readBytes : Tree → Read (List UInt8)
  | .text text =>
    match Text.Base64.decode text.toList with
    | some bytes => .ok bytes
    | none => .error .malformed
  | _ => .error .malformed

/-- Reads a list of items that are no containers. -/
def readSet {α : Type} (read : Tree → Read α) : Nat → Tree → Read (List α)
  | _ + 1, .array items => items.mapM read
  | _, _ => .error .malformed

mutual

/-- Reads a value. -/
def read : Nat → Tree → Read Value
  | depth + 1, .object [(some tag, content)] =>
    match ValueType.ofTag? tag with
    | some .string => (readText content).map .string
    | some .number => (readText content).map .number
    | some .binary => (readBytes content).map .binary
    | some .stringSet => (readSet readText depth content).map .stringSet
    | some .numberSet => (readSet readText depth content).map .numberSet
    | some .binarySet => (readSet readBytes depth content).map .binarySet
    | some .boolean => (readBoolean content).map .boolean
    | some .null => (readBoolean content).map .null
    | some .list =>
      match depth, content with
      | depth + 1, .array items => (readItems depth items).map .list
      | _, _ => .error .malformed
    | some .map =>
      match depth, content with
      | depth + 1, .object members => (readEntries depth [] members).map .map
      | _, _ => .error .malformed
    | none => .error .malformed
  | _, _ => .error .malformed

/-- Reads the items of a list. -/
def readItems : Nat → List Tree → Read (List Value)
  | _, [] => .ok []
  | depth, item :: rest => do
    let value ← read depth item
    let values ← readItems depth rest
    .ok (value :: values)

/-- Reads the entries of a map, a later one winning over an earlier one of its name. -/
def readEntries : Nat → List (String × Value) → List (Option String × Tree) →
    Read (List (String × Value))
  | _, entries, [] => .ok entries
  | _, _, (none, _) :: _ => .error .malformed
  | depth, entries, (some name, tree) :: rest => do
    let value ← read depth tree
    readEntries depth (insertEntry name value entries) rest

end

/-- Reads the text of a value. -/
def ofJson (text : String) : Read Value := readDocument read text

end SingleTable.Value
