/-!
# Kinds of values

The ten kinds of attribute values and their tags.
-/

set_option autoImplicit false

namespace SingleTable

/-- The kind of an attribute value. -/
inductive ValueType where
  | string
  | number
  | binary
  | stringSet
  | numberSet
  | binarySet
  | boolean
  | null
  | list
  | map
  deriving DecidableEq, Inhabited

namespace ValueType

/-- The tag of a kind. -/
def tag : ValueType → String
  | string => "S"
  | number => "N"
  | binary => "B"
  | stringSet => "SS"
  | numberSet => "NS"
  | binarySet => "BS"
  | boolean => "BOOL"
  | null => "NULL"
  | list => "L"
  | map => "M"

/-- The kind of a tag. -/
def ofTag? : String → Option ValueType
  | "S" => some string
  | "N" => some number
  | "B" => some binary
  | "SS" => some stringSet
  | "NS" => some numberSet
  | "BS" => some binarySet
  | "BOOL" => some boolean
  | "NULL" => some null
  | "L" => some list
  | "M" => some map
  | _ => none

/-- The tag of a kind is read as that kind. -/
@[simp] theorem ofTag?_tag (kind : ValueType) : ofTag? kind.tag = some kind := by
  cases kind <;> rfl

end ValueType

end SingleTable
