import SingleTable.Model.Keys
import SingleTable.Proofs.Template.Outcome

/-!
# Resolving is all or nothing

The selected definitions of a model are resolved together: either each of them has a key, and under a name
stands the key of its last definition, or the first definition without a key gives its failure
(`KeysOutcome`). With the outcomes of a single template this says of every input what resolving it gives
(`resolution_is_exact`).
-/

set_option autoImplicit false

namespace SingleTable

/-! ## The last definition of a name -/

/-- No later definition of a list has the name of this one. -/
def KeyDefinition.IsLastIn (definition : KeyDefinition) (definitions : List KeyDefinition) : Prop :=
  ∃ front back, definitions = front ++ definition :: back ∧ ∀ later ∈ back, later.name ≠ definition.name

section Last

variable {definition first : KeyDefinition} {rest : List KeyDefinition}

theorem not_isLastIn_nil : ¬ definition.IsLastIn [] := by
  rintro ⟨front, back, h, -⟩
  cases front <;> cases h

theorem isLastIn_cons_iff :
    definition.IsLastIn (first :: rest) ↔
      definition.IsLastIn rest ∨ definition = first ∧ ∀ later ∈ rest, later.name ≠ first.name := by
  constructor
  · rintro ⟨front, back, hcut, hback⟩
    cases front with
    | nil =>
      cases hcut
      exact Or.inr ⟨rfl, hback⟩
    | cons earlier front =>
      cases hcut
      exact Or.inl ⟨front, back, rfl, hback⟩
  · rintro (⟨front, back, rfl, hback⟩ | ⟨rfl, hrest⟩)
    · exact ⟨first :: front, back, rfl, hback⟩
    · exact ⟨[], rest, rfl, hrest⟩

end Last

/-! ## The outcomes -/

/-- What resolving definitions together gives. -/
inductive KeysOutcome (definitions : List KeyDefinition) (attributes : Dict Value) :
    Except Failure (Dict String) → Prop
  /-- Every definition has a key, and the last of a name counts. -/
  | keys (keys : Dict String)
      (resolved : ∀ definition ∈ definitions, ∃ key, definition.resolve attributes = .ok key)
      (last : ∀ name key, keys.get? name = some key ↔
        ∃ definition : KeyDefinition, definition.IsLastIn definitions ∧ definition.name = name ∧
          definition.resolve attributes = .ok key) :
      KeysOutcome definitions attributes (.ok keys)
  /-- The failure of the first definition without a key. -/
  | failure (failure : Failure) (first : FailsFirst (·.resolve attributes) definitions failure) :
      KeysOutcome definitions attributes (.error failure)

section Outcomes

variable {definitions : List KeyDefinition} {attributes : Dict Value} {keys : Dict String}

/-- Definitions are resolved together exactly if each of them is resolved. -/
theorem exists_resolveOnto_iff :
    (∃ result, resolveOnto attributes keys definitions = .ok result) ↔
      ∀ definition ∈ definitions, ∃ key, definition.resolve attributes = .ok key := by
  induction definitions generalizing keys with
  | nil => exact ⟨fun _ => nofun, fun _ => ⟨keys, rfl⟩⟩
  | cons first rest ih =>
    rw [List.forall_mem_cons]
    constructor
    · rintro ⟨result, h⟩
      rw [resolveOnto, bind_eq_ok_iff] at h
      obtain ⟨key, hfirst, hrest⟩ := h
      exact ⟨⟨key, hfirst⟩, ih.1 ⟨result, hrest⟩⟩
    · rintro ⟨⟨key, hfirst⟩, hrest⟩
      obtain ⟨result, hresult⟩ := ih.2 hrest
      exact ⟨result, bind_eq_ok_iff.2 ⟨key, hfirst, hresult⟩⟩

/-- Definitions fail with the first of them that fails. -/
theorem resolveOnto_eq_error_iff {failure : Failure} :
    resolveOnto attributes keys definitions = .error failure ↔
      FailsFirst (·.resolve attributes) definitions failure := by
  induction definitions generalizing keys with
  | nil => exact iff_of_false nofun not_failsFirst_nil
  | cons first rest ih =>
    rw [resolveOnto, failsFirst_cons_iff]
    cases first.resolve attributes with
    | error cause => simp [bind, Except.bind]
    | ok key => simpa [bind, Except.bind] using ih

/-- Under a name stands the key of the last definition of the name, or what stood there before if no
definition has the name. -/
theorem get?_resolveOnto_iff {result : Dict String}
    (h : resolveOnto attributes keys definitions = .ok result) (name key : String) :
    result.get? name = some key ↔
      (∃ definition : KeyDefinition, definition.IsLastIn definitions ∧ definition.name = name ∧
        definition.resolve attributes = .ok key) ∨
      (∀ definition ∈ definitions, definition.name ≠ name) ∧ keys.get? name = some key := by
  induction definitions generalizing keys with
  | nil =>
    cases h
    simp [not_isLastIn_nil]
  | cons first rest ih =>
    rw [resolveOnto, bind_eq_ok_iff] at h
    obtain ⟨text, hfirst, hrest⟩ := h
    simp only [ih hrest, isLastIn_cons_iff, Dict.get?_insert, List.forall_mem_cons]
    constructor
    · rintro (⟨definition, hlast, hname, hkey⟩ | ⟨hnone, hget⟩)
      · exact Or.inl ⟨definition, Or.inl hlast, hname, hkey⟩
      · split at hget
        -- No later definition has the name, so the first one is the last that has it.
        · rename_i heq
          cases hget
          exact Or.inl ⟨first, Or.inr ⟨rfl, heq ▸ hnone⟩, heq.symm, hfirst⟩
        · rename_i hne
          exact Or.inr ⟨⟨Ne.symm hne, hnone⟩, hget⟩
    · rintro (⟨definition, hlast | ⟨rfl, hnone⟩, rfl, hkey⟩ | ⟨⟨hne, hnone⟩, hget⟩)
      · exact Or.inl ⟨definition, hlast, rfl, hkey⟩
      · rw [hfirst] at hkey
        cases hkey
        exact Or.inr ⟨hnone, if_pos rfl⟩
      · exact Or.inr ⟨hnone, (if_neg hne.symm).trans hget⟩

/-- **Definitions have one outcome**, and resolving them together gives it. -/
theorem resolveOnto_eq_iff {result : Except Failure (Dict String)} :
    resolveOnto attributes .empty definitions = result ↔ KeysOutcome definitions attributes result := by
  have hlast : ∀ {found : Dict String}, resolveOnto attributes .empty definitions = .ok found →
      ∀ name key, found.get? name = some key ↔
        ∃ definition : KeyDefinition, definition.IsLastIn definitions ∧ definition.name = name ∧
          definition.resolve attributes = .ok key := by
    intro found hfound name key
    rw [get?_resolveOnto_iff hfound, Dict.get?_empty]
    simp
  constructor
  · rintro rfl
    cases hresult : resolveOnto attributes .empty definitions with
    | ok found => exact .keys found (exists_resolveOnto_iff.1 ⟨found, hresult⟩) (hlast hresult)
    | error failure => exact .failure failure (resolveOnto_eq_error_iff.1 hresult)
  · intro h
    cases h with
    | keys found hresolved hfound =>
      obtain ⟨result, hresult⟩ := exists_resolveOnto_iff.2 hresolved
      have heq : result = found := by
        apply Dict.ext_get?
        intro name
        apply Option.ext
        intro key
        rw [hlast hresult, hfound]
      rw [hresult, heq]
    | failure failure hfirst => exact resolveOnto_eq_error_iff.2 hfirst

end Outcomes

/-- **Resolving is all or nothing, and its failures are exact.** A template gives a key exactly if every
reference has a scalar, and it fails with the names without a value exactly if there is one; what it gives is
its one outcome. The definitions of a model that are selected have one outcome together. -/
theorem resolution_is_exact :
    (∀ (template : Template) (lookup : String → Option Value),
      ((∃ key, template.resolve lookup = .ok key) ↔
        ∀ name ∈ template.references,
          ∃ value, lookup name = some value ∧ value.kind ∈ Value.scalarKinds) ∧
      ((∃ text names, template.resolve lookup = .error (.missingReferences text names)) ↔
        ∃ name ∈ template.references, lookup name = none) ∧
      ∀ result, template.resolve lookup = result ↔ template.Outcome lookup result) ∧
    ∀ (model : Model) (attributes : Dict Value) (selection : KeySelection) (result : Except Failure (Dict String)),
      model.resolveKeys attributes selection = result ↔
        KeysOutcome (model.selected selection) attributes result := by
  constructor
  · intro template lookup
    exact ⟨Template.exists_resolve_iff, Template.exists_missing_iff, fun result => Template.resolve_eq_iff⟩
  · intro model attributes selection result
    exact resolveOnto_eq_iff

end SingleTable
