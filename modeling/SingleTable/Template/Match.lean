import SingleTable.Dict
import SingleTable.Template.Basic

/-!
# Matching keys

The way back from a key to the texts of the references of its template. A literal has to stand where
the template has it; a reference reaches to the next occurrence of the literal behind it, or to the
end of the key. Two neighbouring references cannot be told apart, and a name that is referred to twice
has one text.
-/

set_option autoImplicit false

namespace SingleTable.Template

/-- The text behind a beginning, if the text has it. -/
def behind? : List Char → List Char → Option (List Char)
  | [], text => some text
  | _ :: _, [] => none
  | a :: beginning, b :: text => if a = b then behind? beginning text else none

/-- Splits a text before the first occurrence of a part. -/
def splitBefore? (part : List Char) : List Char → Option (List Char × List Char)
  | [] => if part.isEmpty then some ([], []) else none
  | c :: rest =>
    if part.isPrefixOf (c :: rest) then some ([], c :: rest)
    else (splitBefore? part rest).map fun (before, after) => (c :: before, after)

/-- Notes the text of a name, which has to agree with an earlier one. -/
def note? (bindings : Dict String) (name : String) (text : List Char) : Option (Dict String) :=
  match bindings.get? name with
  | some earlier => if earlier = String.ofList text then some bindings else none
  | none => some (bindings.insert name (String.ofList text))

/-- Matches segments against a text and adds the texts of their references. -/
def matchSegments (bindings : Dict String) : List Segment → List Char → Option (Dict String)
  | [], [] => some bindings
  | [], _ :: _ => none
  | .literal literal :: rest, text => do
    let tail ← behind? literal.toList text
    matchSegments bindings rest tail
  | [.reference name], text => note? bindings name text
  | .reference name :: .literal literal :: rest, text => do
    let (value, tail) ← splitBefore? literal.toList text
    let bindings ← note? bindings name value
    matchSegments bindings (.literal literal :: rest) tail
  | .reference _ :: .reference _ :: _, _ => none

/-- The texts of the references of a template in a key. -/
def matchKey? (template : Template) (key : String) : Option (Dict String) :=
  matchSegments .empty template.segments key.toList

end SingleTable.Template
