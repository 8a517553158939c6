/-!
# JSON documents

A document as a tree. Members of an object stay in document order, and one name may stand more than
once, because readers of a document decide what a repetition means. A tree also says where a text
stops being a document: the node `broken` stands at the first fault, everything before it is kept.
-/

set_option autoImplicit false

namespace SingleTable.Json

/-- A document, or as much of one as a text holds before its first fault. -/
inductive Tree where
  | null
  | boolean (value : Bool)
  /-- A number without fraction and exponent, as its sign and magnitude. -/
  | integer (negative : Bool) (magnitude : Nat)
  /-- A number with a fraction or an exponent. -/
  | fraction
  | text (value : String)
  /-- A string with an unpaired surrogate escape, which stands for no text. -/
  | unpaired
  | array (items : List Tree)
  /-- An object; a member whose name stands for no text has none. -/
  | object (members : List (Option String × Tree))
  /-- The place of the first fault. -/
  | broken
  deriving Inhabited

namespace Tree

/-- The object of a list of named members. -/
def record (members : List (String × Tree)) : Tree :=
  .object (members.map fun member => (some member.1, member.2))

/-- The number of an integer. -/
def number (value : Int) : Tree := .integer (value < 0) value.natAbs

mutual

/-- Whether the tree has no fault. -/
def intact : Tree → Bool
  | .array items => intactItems items
  | .object members => intactMembers members
  | .broken => false
  | _ => true

/-- Whether no item of a list has a fault. -/
def intactItems : List Tree → Bool
  | [] => true
  | item :: rest => intact item && intactItems rest

/-- Whether no member of a list has a fault. -/
def intactMembers : List (Option String × Tree) → Bool
  | [] => true
  | (_, value) :: rest => intact value && intactMembers rest

end

end Tree

end SingleTable.Json
