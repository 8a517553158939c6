import SingleTable.Failure
import SingleTable.Value.Basic

/-!
# Key templates

A key template is a text with references to attributes, such as `PHOTO#${user}#${time}`. Every text
is a template: a mark `${` that no name and closing brace follow stands for itself. The segments of a
template alternate between the two kinds as far as they can, so a template has one segment list.

A template becomes a key when every reference is replaced by the text of its attribute. The result is
a whole key or a failure: first all names without a value, then the first value without a text.
-/

set_option autoImplicit false

namespace SingleTable

/-- A piece of a template. -/
inductive Segment where
  /-- Text that stands for itself. -/
  | literal (text : String)
  /-- A reference to the attribute of a name. -/
  | reference (name : String)
  deriving DecidableEq

/-- A text with references to attributes. -/
structure Template where
  /-- The pieces in order. -/
  segments : List Segment
  deriving DecidableEq

namespace Template

/-! ## Reading -/

/-- Reads a reference behind its mark: a name without braces up to a closing brace, and the text
behind it. -/
def reference? (text : List Char) : Option (List Char × List Char) :=
  let name := text.takeWhile (· != '\x7d')
  match text.dropWhile (· != '\x7d') with
  | [] => none
  | _ :: rest => if name.isEmpty || name.contains '\x7b' then none else some (name, rest)

/-- The text behind a reference is shorter than the whole. -/
theorem length_lt_of_reference? {text name rest : List Char}
    (h : reference? text = some (name, rest)) : rest.length < text.length := by
  unfold reference? at h
  dsimp only at h
  split at h
  · simp at h
  · rename_i closing tail heq
    split at h
    · simp at h
    · cases h
      have hle := (List.dropWhile_sublist (l := text) (· != '\x7d')).length_le
      rw [heq] at hle
      exact hle

/-- Puts a character in front of segments, into the literal that stands there if there is one. -/
def consLiteral (c : Char) : List Segment → List Segment
  | .literal text :: rest => .literal (String.ofList (c :: text.toList)) :: rest
  | segments => .literal (String.ofList [c]) :: segments

/-- The segments of a text. -/
def scan : List Char → List Segment
  | [] => []
  | '$' :: '\x7b' :: rest =>
    match h : reference? rest with
    | some (name, tail) =>
      have := length_lt_of_reference? h
      .reference (String.ofList name) :: scan tail
    | none => consLiteral '$' (consLiteral '\x7b' (scan rest))
  | c :: rest => consLiteral c (scan rest)
termination_by text => text.length
decreasing_by all_goals simp_all; try omega

/-- The template of a text. -/
def parse (text : String) : Template := ⟨scan text.toList⟩

/-! ## Writing -/

/-- The text of a piece. -/
def segmentText : Segment → String
  | .literal text => text
  | .reference name => "$\x7b" ++ name ++ "\x7d"

/-- The text of segments. -/
def segmentsText : List Segment → String
  | [] => ""
  | segment :: rest => segmentText segment ++ segmentsText rest

/-- The text of a template. -/
def text (template : Template) : String := segmentsText template.segments

/-! ## References -/

/-- The name that a piece refers to. -/
def referredName? : Segment → Option String
  | .literal _ => none
  | .reference name => some name

/-- The names that a template refers to, in order and with repetitions. -/
def references (template : Template) : List String :=
  template.segments.filterMap referredName?

/-- Whether a template refers to a name. -/
def refersTo (template : Template) (name : String) : Bool := template.references.contains name

/-! ## Resolving -/

/-- The names of a template that a look-up does not know, each once, in the order of their first
references. -/
def missing (template : Template) (lookup : String → Option Value) : List String :=
  (template.references.filter fun name => (lookup name).isNone).eraseDups

/-- The text of a value that a template refers to. -/
def valueText (template name : String) : Option Value → Except Failure String
  | none => .error (.missingReferences template [name])
  | some value =>
    match value.keyText? with
    | some text => .ok text
    | none => .error (.unsupportedValue template name value.kind)

/-- Replaces the references in segments of the template with the given text. -/
def substitute (template : String) (lookup : String → Option Value) :
    List Segment → Except Failure String
  | [] => .ok ""
  | .literal text :: rest => do
    let more ← substitute template lookup rest
    .ok (text ++ more)
  | .reference name :: rest => do
    let text ← valueText template name (lookup name)
    let more ← substitute template lookup rest
    .ok (text ++ more)

/-- The key that a template gives with the values of a look-up. -/
def resolve (template : Template) (lookup : String → Option Value) : Except Failure String :=
  match template.missing lookup with
  | [] => substitute template.text lookup template.segments
  | missing => .error (.missingReferences template.text missing)

end Template

end SingleTable
