import SingleTable.Dict
import SingleTable.Decimal.Shortest
import SingleTable.Text.Basic
import SingleTable.Value.Kind

/-!
# Attribute values

What the table stores under an attribute name. Numbers are texts, so no precision is lost. A scalar
has a text that can stand inside a key; a binary value and a collection have none.
-/

set_option autoImplicit false

namespace SingleTable

/-- An attribute value. The entries of a map are those of a dictionary: in increasing order of their
names. -/
inductive Value where
  | string (text : String)
  | number (digits : String)
  | binary (bytes : List UInt8)
  | stringSet (items : List String)
  | numberSet (items : List String)
  | binarySet (items : List (List UInt8))
  | boolean (value : Bool)
  | null (value : Bool)
  | list (items : List Value)
  | map (entries : List (String × Value))
  deriving Inhabited

namespace Value

/-! ## Equality -/

mutual

/-- Whether two values are the same. -/
def same : Value → Value → Bool
  | .string a, .string b => a == b
  | .number a, .number b => a == b
  | .binary a, .binary b => a == b
  | .stringSet a, .stringSet b => a == b
  | .numberSet a, .numberSet b => a == b
  | .binarySet a, .binarySet b => a == b
  | .boolean a, .boolean b => a == b
  | .null a, .null b => a == b
  | .list a, .list b => sameItems a b
  | .map a, .map b => sameEntries a b
  | _, _ => false

/-- Whether two lists hold the same values. -/
def sameItems : List Value → List Value → Bool
  | [], [] => true
  | a :: as, b :: bs => same a b && sameItems as bs
  | _, _ => false

/-- Whether two lists hold the same entries. -/
def sameEntries : List (String × Value) → List (String × Value) → Bool
  | [], [] => true
  | (j, a) :: as, (k, b) :: bs => j == k && same a b && sameEntries as bs
  | _, _ => false

end

mutual

/-- Values that are the same are equal. -/
theorem same_iff (a b : Value) : same a b = true ↔ a = b := by
  cases a <;> cases b <;> simp only [same, beq_iff_eq, reduceCtorEq, Bool.false_eq_true,
    string.injEq, number.injEq, binary.injEq, stringSet.injEq, numberSet.injEq, binarySet.injEq,
    boolean.injEq, null.injEq, list.injEq, map.injEq, sameItems_iff, sameEntries_iff]

/-- Lists that hold the same values are equal. -/
theorem sameItems_iff (as bs : List Value) : sameItems as bs = true ↔ as = bs := by
  cases as with
  | nil => cases bs <;> simp [sameItems]
  | cons a as =>
    cases bs with
    | nil => simp [sameItems]
    | cons b bs => simp [sameItems, same_iff a b, sameItems_iff as bs]

/-- Lists that hold the same entries are equal. -/
theorem sameEntries_iff (as bs : List (String × Value)) :
    sameEntries as bs = true ↔ as = bs := by
  cases as with
  | nil => cases bs <;> simp [sameEntries]
  | cons a as =>
    obtain ⟨j, a⟩ := a
    cases bs with
    | nil => simp [sameEntries]
    | cons b bs =>
      obtain ⟨k, b⟩ := b
      simp [sameEntries, same_iff a b, sameEntries_iff as bs, and_assoc]

end

instance : DecidableEq Value := fun a b => decidable_of_iff _ (same_iff a b)

/-! ## Making values -/

/-- The map of a dictionary. -/
def ofDict (dict : Dict Value) : Value := .map dict.entries

/-- The number of an integer. -/
def ofInt (value : Int) : Value := .number (toString value)

/-- The number of a floating point number of 32 bits. -/
def ofFloat32 (value : Float32) : Value := .number (Decimal.single.text value.toBits.toNat)

/-- The number of a floating point number of 64 bits. -/
def ofFloat (value : Float) : Value := .number (Decimal.double.text value.toBits.toNat)

/-! ## Observing values -/

/-- The kind of a value. -/
def kind : Value → ValueType
  | .string _ => .string
  | .number _ => .number
  | .binary _ => .binary
  | .stringSet _ => .stringSet
  | .numberSet _ => .numberSet
  | .binarySet _ => .binarySet
  | .boolean _ => .boolean
  | .null _ => .null
  | .list _ => .list
  | .map _ => .map

/-- The word for a truth value. -/
def truthText (value : Bool) : String := if value then "true" else "false"

/-- The text of a scalar inside a key. -/
def keyText? : Value → Option String
  | .string text => some text
  | .number digits => some digits
  | .boolean value => some (truthText value)
  | .null _ => some "null"
  | _ => none

/-- What a report says about the content of a value. -/
def summary : Value → String
  | .string text => text
  | .number digits => digits
  | .binary bytes => toString bytes.length ++ " bytes"
  | .stringSet items => Text.quotedList items
  | .numberSet items => Text.quotedList items
  | .binarySet items => toString items.length ++ " items"
  | .boolean value => truthText value
  | .null value => truthText value
  | .list items => toString items.length ++ " items"
  | .map entries => toString entries.length ++ " keys"

/-- The form of a value in a report: its tag and a summary of its content. -/
def report (value : Value) : String :=
  "\x7b" ++ value.kind.tag ++ ": " ++ value.summary ++ "\x7d"

end Value

end SingleTable
