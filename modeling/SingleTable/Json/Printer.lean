import SingleTable.Json.Tree

/-!
# Writing JSON documents

The compact text of a tree: no blanks, members in the order of the tree, and escapes only for the
quotation mark, the backslash and the controls below U+0020, by letter where there is one and else
by four lower-case hexadecimal digits.
-/

set_option autoImplicit false

namespace SingleTable.Json

/-- One hexadecimal digit, in lower case. -/
def hexDigit (value : Nat) : Char := Nat.digitChar value

/-- One character inside a string. -/
def printChar (c : Char) : List Char :=
  if c = '"' then ['\\', '"']
  else if c = '\\' then ['\\', '\\']
  else if c = '\x08' then ['\\', 'b']
  else if c = '\t' then ['\\', 't']
  else if c = '\n' then ['\\', 'n']
  else if c = '\x0c' then ['\\', 'f']
  else if c = '\r' then ['\\', 'r']
  else if c.toNat < 0x20 then
    ['\\', 'u', '0', '0', hexDigit (c.toNat / 16), hexDigit (c.toNat % 16)]
  else [c]

/-- A string between its marks. -/
def printString (text : String) : List Char :=
  '"' :: text.toList.flatMap printChar ++ ['"']

/-- A string that stands for no text, and the name of a member without one. -/
def printUnpaired : List Char := ['"', '\\', 'u', 'd', '8', '0', '0', '"']

/-- The name of a member. -/
def printName : Option String → List Char
  | some name => printString name
  | none => printUnpaired

mutual

/-- The compact text of a tree. The text of a fault is empty, which is no document either. -/
def print : Tree → List Char
  | .null => ['n', 'u', 'l', 'l']
  | .boolean true => ['t', 'r', 'u', 'e']
  | .boolean false => ['f', 'a', 'l', 's', 'e']
  | .integer negative magnitude =>
    (if negative then ['-'] else []) ++ Nat.toDigits 10 magnitude
  | .fraction => ['0', '.', '5']
  | .text value => printString value
  | .unpaired => printUnpaired
  | .array items => '[' :: printItems items ++ [']']
  | .object members => '\x7b' :: printMembers members ++ ['\x7d']
  | .broken => []

/-- The items of an array with a comma between neighbours. -/
def printItems : List Tree → List Char
  | [] => []
  | [item] => print item
  | item :: rest => print item ++ ',' :: printItems rest

/-- The members of an object with a comma between neighbours. -/
def printMembers : List (Option String × Tree) → List Char
  | [] => []
  | [(name, value)] => printName name ++ ':' :: print value
  | (name, value) :: rest => printName name ++ ':' :: print value ++ ',' :: printMembers rest

end

/-- The compact text of a tree. -/
def Tree.toText (tree : Tree) : String := String.ofList (print tree)

end SingleTable.Json
