import SingleTable.Dict
import SingleTable.Value.Basic

/-!
# Fragments

The text of an expression together with what its placeholders stand for: names for the tokens behind
`#`, values for those behind `:`. The empty text means that there is no expression.
-/

set_option autoImplicit false

namespace SingleTable

/-- An expression text with its two placeholder maps. -/
structure Fragment where
  /-- The text. -/
  text : String := ""
  /-- The names that name tokens stand for. -/
  names : Dict String := .empty
  /-- The values that value placeholders stand for. -/
  values : Dict Value := .empty
  deriving DecidableEq

namespace Fragment

/-- Whether there is no expression. -/
def isEmpty (fragment : Fragment) : Bool := fragment.text.isEmpty

/-- The text, if there is an expression. -/
def text? (fragment : Fragment) : Option String :=
  if fragment.isEmpty then none else some fragment.text

theorem text?_eq_none_iff {fragment : Fragment} : fragment.text? = none ↔ fragment.text = "" := by
  rw [text?, isEmpty, ← String.isEmpty_iff]
  split
  · rename_i hempty
    exact iff_of_true rfl hempty
  · rename_i hsome
    exact iff_of_false nofun hsome

theorem getD_text? (fragment : Fragment) : fragment.text?.getD "" = fragment.text := by
  rw [text?]
  split
  · rename_i hempty
    exact (String.isEmpty_iff.1 hempty).symm
  · rfl

/-- Adds the placeholder maps of another fragment, whose entries win, and keeps the text. -/
def merge (fragment other : Fragment) : Fragment :=
  { fragment with
    names := fragment.names.extend other.names
    values := fragment.values.extend other.values }

end Fragment

end SingleTable
