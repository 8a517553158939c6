import SingleTable.Json.Tree
import SingleTable.Json.Token

/-!
# Reading JSON documents

A token list becomes a tree from left to right. At the first fault the tree so far is closed with the
node `broken` and nothing behind it is read, so a consumer that walks the tree in document order
meets its own complaints and the fault of the text in the order in which they occur.
-/

set_option autoImplicit false

namespace SingleTable.Json

/-- The name that a token gives to a member, if it is a string. -/
def Token.memberName? : Token → Option (Option String)
  | .text name => some (some name)
  | .unpaired => some none
  | _ => none

mutual

/-- Reads one value: its tree and the tokens behind it, or none behind a fault. The first argument
bounds the number of nested calls. -/
def readValue : Nat → List Token → Tree × Option (List Token)
  | 0, _ => (.broken, none)
  | fuel + 1, tokens =>
    match tokens with
    | .null :: rest => (.null, some rest)
    | .boolean value :: rest => (.boolean value, some rest)
    | .integer negative magnitude :: rest => (.integer negative magnitude, some rest)
    | .fraction :: rest => (.fraction, some rest)
    | .text value :: rest => (.text value, some rest)
    | .unpaired :: rest => (.unpaired, some rest)
    | .openBracket :: .closeBracket :: rest => (.array [], some rest)
    | .openBracket :: rest =>
      let (items, rest) := readItems fuel rest
      (.array items, rest)
    | .openBrace :: .closeBrace :: rest => (.object [], some rest)
    | .openBrace :: rest =>
      let (members, rest) := readMembers fuel rest
      (.object members, rest)
    | _ => (.broken, none)

/-- Reads the items of an array up to its closing bracket. -/
def readItems : Nat → List Token → List Tree × Option (List Token)
  | 0, _ => ([.broken], none)
  | fuel + 1, tokens =>
    match readValue fuel tokens with
    | (item, some (.comma :: rest)) =>
      let (items, rest) := readItems fuel rest
      (item :: items, rest)
    | (item, some (.closeBracket :: rest)) => ([item], some rest)
    | (item, _) => ([item, .broken], none)

/-- Reads the members of an object up to its closing brace. -/
def readMembers : Nat → List Token → List (Option String × Tree) × Option (List Token)
  | 0, _ => ([(none, .broken)], none)
  | fuel + 1, tokens =>
    match tokens with
    | key :: .colon :: rest =>
      match key.memberName? with
      | none => ([(none, .broken)], none)
      | some name =>
        match readValue fuel rest with
        | (value, some (.comma :: rest)) =>
          let (members, rest) := readMembers fuel rest
          ((name, value) :: members, rest)
        | (value, some (.closeBrace :: rest)) => ([(name, value)], some rest)
        | (value, _) => ([(name, value), (none, .broken)], none)
    | _ => ([(none, .broken)], none)

end

/-- The document at the start of a text. -/
structure Document where
  /-- The tree up to the end of the document or its first fault. -/
  tree : Tree
  /-- Whether the document has no fault and nothing but blanks stands behind it. -/
  complete : Bool

/-- Reads a text. Every token takes at most two nested calls. -/
def Document.ofText (text : String) : Document :=
  let tokens := tokens text.toList
  match readValue (2 * tokens.length + 1) tokens with
  | (tree, some []) => ⟨tree, true⟩
  | (tree, _) => ⟨tree, false⟩

end SingleTable.Json
