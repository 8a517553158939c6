import SingleTable.Text.Basic
import SingleTable.Value.Kind

/-!
# Failures and warnings

Why a key, a plan, a request or a setting could not be made, by cause, and what is reported without failing.
The words of each cause stand in `Failure.message`, those of each report in `Warning.message`.
-/

set_option autoImplicit false

namespace SingleTable

/-! ## Failures -/

/-- A cause of failure. -/
inductive Failure where
  /-- A template refers to attributes without a value; each of them is named once. -/
  | missingReferences (template : String) (missing : List String)
  /-- A template refers to an attribute whose value has no text. -/
  | unsupportedValue (template name : String) (kind : ValueType)
  /-- A model does not declare the attribute. -/
  | unknownAttribute (model name : String)
  /-- A model does not declare the index. -/
  | unknownIndex (model index : String)
  /-- A condition went to one key while other keys that it determines got none. -/
  | ambiguousKey (name chosen : String) (shadowed : List String)
  /-- No condition of a query went to a key. -/
  | missingKeyCondition (model : String)
  /-- A setting has no value of the given spelling. -/
  | invalidSetting (reason : String)
  deriving DecidableEq

/-- The words of a failure. -/
def Failure.message : Failure → String
  | missingReferences template missing =>
    "missing template variable(s) " ++ ", ".intercalate missing ++ " for key template \"" ++
      template ++ "\""
  | unsupportedValue template name kind =>
    "template variable '" ++ name ++ "' has type " ++ kind.tag ++
      " which cannot be substituted into key template \"" ++ template ++ "\""
  | unknownAttribute model name => "model " ++ model ++ " has no attribute '" ++ name ++ "'"
  | unknownIndex model index => "model " ++ model ++ " has no index '" ++ index ++ "'"
  | ambiguousKey name chosen shadowed =>
    "attribute '" ++ name ++ "' is pushed into key '" ++ chosen ++
      "' but also feeds unconstrained key(s) " ++ ", ".intercalate shadowed
  | missingKeyCondition model => "query on " ++ model ++ " has no condition on any key attribute"
  | invalidSetting reason => "configuration error: " ++ reason

/-! ## Warnings -/

/-- A report about a result that stands. -/
inductive Warning where
  /-- A condition went to one key while other keys that it determines got none. -/
  | shadowedKeys (model name chosen : String) (shadowed : List String)
  /-- A setting was left out because its value has no meaning. -/
  | ignoredSetting (key reason : String)
  deriving DecidableEq

namespace Warning

/-- The words of a warning. -/
def message : Warning → String
  | shadowedKeys _ _ _ _ =>
    "attribute feeds several keys but only the first received a key condition"
  | ignoredSetting _ _ => "ignoring invalid configuration value"

/-- What a warning is about, by name. -/
def details : Warning → List (String × String)
  | shadowedKeys model name chosen shadowed =>
    [("model", model), ("attribute", name), ("chosen", chosen),
      ("shadowed", Text.quotedList shadowed)]
  | ignoredSetting key reason => [("key", key), ("error", reason)]

end Warning

/-! ## Computations that can fail -/

/-- Two steps succeed exactly if the second succeeds on the value of the first. -/
theorem bind_eq_ok_iff {ε α β : Type} {first : Except ε α} {next : α → Except ε β} {result : β} :
    (first >>= next) = .ok result ↔ ∃ value, first = .ok value ∧ next value = .ok result := by
  constructor
  · intro h
    cases first with
    | error failure => cases h
    | ok value => exact ⟨value, rfl, h⟩
  · rintro ⟨value, rfl, h⟩
    exact h

/-- A changed result is a value exactly if the result was one that changes into it. -/
theorem map_eq_ok_iff {ε α β : Type} {first : Except ε α} {f : α → β} {result : β} :
    first.map f = .ok result ↔ ∃ value, first = .ok value ∧ f value = result := by
  cases first with
  | error failure => exact ⟨nofun, fun ⟨_, h, _⟩ => nomatch h⟩
  | ok value =>
    constructor
    · intro h
      exact ⟨value, rfl, Except.ok.inj h⟩
    · rintro ⟨found, hfound, rfl⟩
      cases hfound
      rfl

/-- A computation that has a value has succeeded with it. -/
theorem eq_ok_of_toOption {ε α : Type} {result : Except ε α} {value : α}
    (h : result.toOption = some value) : result = .ok value := by
  cases result with
  | error failure => cases h
  | ok found => rw [Option.some.inj h]

/-- A result of which something is known is a result. -/
theorem exists_ok_of_map_toOption {ε α β : Type} {result : Except ε α} {f : α → β} {value : β}
    (h : result.toOption.map f = some value) : ∃ found, result = .ok found ∧ f found = value := by
  obtain ⟨found, hfound, hvalue⟩ := Option.map_eq_some_iff.1 h
  exact ⟨found, eq_ok_of_toOption hfound, hvalue⟩

end SingleTable
