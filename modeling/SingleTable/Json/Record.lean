import SingleTable.Json.Reader
import SingleTable.Json.Printer
import SingleTable.Dict

/-!
# Typed reading of JSON documents

A reader takes a tree to a value or rejects it. Records are read in document order, so of two faults
the first one in the document is reported. A record is written as an object, where unknown members
are ignored and a known member stands at most once, or as an array of its members in their order of
declaration. A container that is read for its content costs one unit of a depth budget; ignored
members cost nothing.
-/

set_option autoImplicit false

namespace SingleTable.Json

variable {α : Type}

/-- Why a text stands for no value of the wanted type. -/
inductive Rejection where
  /-- The text is no document, or one of another shape. -/
  | malformed
  /-- A name is defined twice in one list of definitions. -/
  | duplicateDefinition (name : String)
  deriving DecidableEq

/-- The words for a rejection, where it has some of its own. -/
def Rejection.message? : Rejection → Option String
  | .malformed => none
  | .duplicateDefinition name => some ("duplicate definition '" ++ name ++ "'")

/-- The number of containers that may be nested in each other. -/
def depthLimit : Nat := 127

/-- The result of a reader. -/
abbrev Read (α : Type) := Except Rejection α

/-! ## Single values -/

/-- Reads a text. -/
def readText : Tree → Read String
  | .text value => .ok value
  | _ => .error .malformed

/-- Reads a truth value. -/
def readBoolean : Tree → Read Bool
  | .boolean value => .ok value
  | _ => .error .malformed

/-- Reads an integer of 32 bits. A negative zero is none. -/
def readInt32 : Tree → Read Int32
  | .integer false magnitude =>
    if magnitude < 0x80000000 then .ok (Int32.ofNat magnitude) else .error .malformed
  | .integer true magnitude =>
    if 0 < magnitude ∧ magnitude ≤ 0x80000000 then .ok (Int32.ofInt (-magnitude))
    else .error .malformed
  | _ => .error .malformed

/-- Reads a value that may be `null`. -/
def readOptional (read : Tree → Read α) : Tree → Read (Option α)
  | .null => .ok none
  | tree => (read tree).map some

/-- Reads a name out of a fixed list: as a text, or as the only member of an object, with the value
`null`. -/
def readTag (tag? : String → Option α) : Nat → Tree → Read α
  | _, .text name =>
    match tag? name with
    | some value => .ok value
    | none => .error .malformed
  | _ + 1, .object [(some name, .null)] =>
    match tag? name with
    | some value => .ok value
    | none => .error .malformed
  | _, _ => .error .malformed

/-! ## Dictionaries -/

/-- Reads the members of a dictionary, a later one winning over an earlier one of its name. -/
def readEntries (read : Tree → Read α) (dict : Dict α) :
    List (Option String × Tree) → Read (Dict α)
  | [] => .ok dict
  | (none, _) :: _ => .error .malformed
  | (some name, tree) :: rest => do
    let value ← read tree
    readEntries read (dict.insert name value) rest

/-- Reads a dictionary. -/
def readDict (read : Nat → Tree → Read α) : Nat → Tree → Read (Dict α)
  | depth + 1, .object members => readEntries (read depth) .empty members
  | _, _ => .error .malformed

/-! ## Records -/

/-- A member that a record knows. -/
structure Field where
  /-- The name of the member. -/
  name : String
  /-- Whether the array form of the record may leave the member off its end. -/
  omissible : Bool := false

/-- The members of a record: those of an object, or the items of an array under the names of the
fields. An item behind the last field is a fault. -/
def namedMembers? (fields : List Field) : Tree → Option (List (Option String × Tree))
  | .object members => some members
  | .array items =>
    if (fields.drop items.length).all Field.omissible then
      some ((fields.zip items).map (fun (field, item) => (some field.name, item)) ++
        (items.drop fields.length).map (fun _ => (none, .broken)))
    else none
  | _ => none

/-- Reads the known members in document order. The list `seen` holds the names of those before. -/
def readKnown (fields : List Field) (read : String → Tree → Read α) (seen : List String) :
    List (Option String × Tree) → Read (List (String × α))
  | [] => .ok []
  | (none, _) :: _ => .error .malformed
  | (some name, tree) :: rest =>
    if fields.any (·.name == name) then
      if name ∈ seen then .error .malformed
      else do
        let value ← read name tree
        let values ← readKnown fields read (name :: seen) rest
        .ok ((name, value) :: values)
    else if tree.intact then readKnown fields read seen rest
    else .error .malformed

/-- Reads a record: the known members by name. -/
def readRecord (fields : List Field) (read : Nat → String → Tree → Read α) :
    Nat → Tree → Read (List (String × α))
  | 0, _ => .error .malformed
  | depth + 1, tree =>
    match namedMembers? fields tree with
    | none => .error .malformed
    | some members => readKnown fields (read depth) [] members

/-- Reads a record without looking into its members. -/
def readMembersOf (fields : List Field) : Nat → Tree → Read (List (String × Tree)) :=
  readRecord fields (fun _ _ tree => .ok tree)

/-- A member that has to be there. -/
def required (members : List (String × Tree)) (name : String) (read : Tree → Read α) : Read α :=
  match findEntry name members with
  | some tree => read tree
  | none => .error .malformed

/-- A member that has a value if it is left out. -/
def withDefault (members : List (String × Tree)) (name : String) (default : α)
    (read : Tree → Read α) : Read α :=
  match findEntry name members with
  | some tree => read tree
  | none => .ok default

/-- A member that may be left out or `null`. -/
def optional (members : List (String × Tree)) (name : String) (read : Tree → Read α) :
    Read (Option α) :=
  withDefault members name none (readOptional read)

/-! ## Texts -/

/-- Reads a whole text. A fault of the text counts after everything that stands before it. -/
def readDocument (read : Nat → Tree → Read α) (text : String) : Read α := do
  let document := Document.ofText text
  let value ← read depthLimit document.tree
  if document.complete then .ok value else .error .malformed

end SingleTable.Json
