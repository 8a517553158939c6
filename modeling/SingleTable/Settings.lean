import SingleTable.Failure
import SingleTable.Json.Record
import SingleTable.Text.Basic

/-!
# Settings

Defaults for requests: what a query does about keys that it leaves without a condition, and whether
reads are strongly consistent. Settings come from named variables, strictly or leniently: a value
without a meaning is a failure, or it is left out with a warning.
-/

set_option autoImplicit false

namespace SingleTable

open Json

/-! ## Shared keys -/

/-- What happens when an attribute determines several keys and only the first gets a condition. -/
inductive SharedKeyPolicy where
  /-- The query is made with a warning. -/
  | warn
  /-- The query fails. -/
  | reject
  deriving DecidableEq

namespace SharedKeyPolicy

/-- The spelling of a policy. -/
def tag : SharedKeyPolicy → String
  | warn => "warn"
  | reject => "reject"

/-- The policy of an exact spelling. -/
def ofTag? : String → Option SharedKeyPolicy
  | "warn" => some warn
  | "reject" => some reject
  | _ => none

/-- Reads a policy without regard to blanks around it and to the case of its letters. -/
def parse (text : String) : Except Failure SharedKeyPolicy :=
  let word := (Text.trim text).map Char.toLower
  match ofTag? word with
  | some policy => .ok policy
  | none =>
    .error (.invalidSetting
      ("unknown partial key policy '" ++ word ++ "' (expected 'warn' or 'reject')"))

end SharedKeyPolicy

/-! ## Settings -/

/-- Defaults for requests. -/
structure Settings where
  /-- The policy of queries. -/
  policy : SharedKeyPolicy := .warn
  /-- Whether reads are strongly consistent. -/
  consistentRead : Bool := false
  deriving DecidableEq

namespace Settings

/-- The variable of the policy. -/
def policyVariable : String := "KEYFORGE_PARTIAL_KEY_POLICY"

/-- The variable of the consistency of reads. -/
def consistencyVariable : String := "KEYFORGE_CONSISTENT_READ"

/-- Whether a spelling means yes. -/
def isYes (text : String) : Bool := ["1", "true", "yes", "TRUE", "YES"].contains text

/-- Settings out of variables. A policy that has no meaning is a failure; every spelling that does not
mean yes means no. -/
def ofLookup (lookup : String → Option String) : Except Failure Settings := do
  let policy ← match lookup policyVariable with
    | some text => SharedKeyPolicy.parse text
    | none => .ok .warn
  .ok ⟨policy, (lookup consistencyVariable).any isYes⟩

/-- Settings out of variables, where a policy that has no meaning is left out with a warning. -/
def ofLookupLenient (lookup : String → Option String) : Settings × List Warning :=
  let consistentRead := (lookup consistencyVariable).any isYes
  match (lookup policyVariable).map SharedKeyPolicy.parse with
  | none => (⟨.warn, consistentRead⟩, [])
  | some (.ok policy) => (⟨policy, consistentRead⟩, [])
  | some (.error failure) =>
    (⟨.warn, consistentRead⟩, [.ignoredSetting policyVariable failure.message])

/-- The document of settings. -/
def toTree (settings : Settings) : Tree :=
  .record [("partialKeyPolicy", .text settings.policy.tag),
    ("consistentRead", .boolean settings.consistentRead)]

/-- Reads settings. -/
def read : Nat → Tree → Read Settings
  | 0, _ => .error .malformed
  | depth + 1, tree => do
    let members ← readMembersOf [⟨"partialKeyPolicy", false⟩, ⟨"consistentRead", false⟩]
      (depth + 1) tree
    let policy ← required members "partialKeyPolicy" (readTag SharedKeyPolicy.ofTag? depth)
    let consistentRead ← required members "consistentRead" readBoolean
    .ok ⟨policy, consistentRead⟩

end Settings

end SingleTable
