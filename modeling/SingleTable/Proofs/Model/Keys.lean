import Mathlib.Data.List.Nodup
import SingleTable.Model.Keys

/-!
# Resolved keys

What stands under the name of one key definition in the keys that a model resolves. No other definition may
have the name, or the later one would win.
-/

set_option autoImplicit false

namespace SingleTable

/-- The names of all key attributes of a model: those of the primary key and of every index. -/
def Model.physicalNames (model : Model) : List String :=
  (model.key ++ model.indexKeys).map (·.name)

/-- A definition whose name no other of a list has. -/
def KeyDefinition.OnlyOneIn (definition : KeyDefinition) (definitions : List KeyDefinition) : Prop :=
  ∀ other ∈ definitions, other.name = definition.name → other = definition

theorem Model.onlyOneIn {model : Model} (h : model.physicalNames.Nodup) {definition : KeyDefinition}
    (hmem : definition ∈ model.key ++ model.indexKeys) :
    definition.OnlyOneIn (model.key ++ model.indexKeys) := fun _ hother hname =>
  List.inj_on_of_nodup_map h hother hmem hname

/-- An index that is found is declared under the name that was asked for. -/
theorem Model.of_index? {model : Model} {name : String} {found : IndexDefinition}
    (h : model.index? name = some found) : found ∈ model.indexes ∧ found.name = name := by
  refine ⟨List.mem_of_find?_eq_some h, ?_⟩
  have hname := List.find?_some (p := fun index : IndexDefinition => index.name = name) h
  exact of_decide_eq_true hname

/-- One of the given indexes holds the item, and the definition is one of its keys. -/
def Model.Holds (model : Model) (attributes : Dict Value) (definition : KeyDefinition)
    (indexes : List IndexDefinition) : Prop :=
  ∃ index ∈ indexes, ∃ found, model.index? index.name = some found ∧ definition ∈ found.key ∧
    ∃ more, resolveOnto attributes .empty found.key = .ok more

variable {attributes : Dict Value} {definition : KeyDefinition} {key : String}

/-- If the first index does not hold the item under the definition, one of the others does. -/
theorem Model.Holds.of_cons {model : Model} {index : IndexDefinition} {rest : List IndexDefinition}
    (h : model.Holds attributes definition (index :: rest))
    (hnot : ∀ found, model.index? index.name = some found → definition ∈ found.key →
      ∀ more, resolveOnto attributes .empty found.key ≠ .ok more) :
    model.Holds attributes definition rest := by
  obtain ⟨other, hother, found, hfound, hin, more, hmore⟩ := h
  rcases List.mem_cons.1 hother with rfl | hother
  · exact absurd hmore (hnot found hfound hin more)
  · exact ⟨other, hother, found, hfound, hin, more, hmore⟩

/-! ## Index by index -/

namespace Model

variable {model : Model} {keys part : Dict String} {index : IndexDefinition} {rest : List IndexDefinition}

/-- What an index adds to the keys of an item: its keys, or none if an attribute that it refers to is
absent. -/
def indexPart (model : Model) (attributes : Dict Value) (index : IndexDefinition) :
    Except Failure (Dict String) :=
  match model.resolveIndexKeys index.name attributes with
  | .ok more => .ok more
  | .error (.missingReferences _ _) => .ok .empty
  | .error failure => .error failure

/-- The keys of an index are those of the definition that its name stands for. -/
theorem resolveIndexKeys_eq_ok_iff {name : String} :
    model.resolveIndexKeys name attributes = .ok part ↔
      ∃ found, model.index? name = some found ∧ resolveOnto attributes .empty found.key = .ok part := by
  rw [resolveIndexKeys]
  cases model.index? name with
  | none => simp
  | some found => simp

theorem indexPart_eq_ok_iff :
    model.indexPart attributes index = .ok part ↔
      model.resolveIndexKeys index.name attributes = .ok part ∨
        part = .empty ∧ ∃ text names,
          model.resolveIndexKeys index.name attributes = .error (.missingReferences text names) := by
  rw [indexPart]
  cases model.resolveIndexKeys index.name attributes with
  | ok more => simp
  | error failure => cases failure <;> simp [eq_comm]

/-- Adding indexes goes index by index. -/
theorem addIndexKeys_cons :
    model.addIndexKeys attributes keys (index :: rest) =
      model.indexPart attributes index >>= fun part =>
        model.addIndexKeys attributes (keys.extend part) rest := by
  rw [addIndexKeys, indexPart]
  cases model.resolveIndexKeys index.name attributes with
  | ok more => rfl
  | error failure => cases failure <;> rfl

end Model

/-! ## The key of one definition -/

/-- Resolved definitions hold the key of a definition that is among them, and otherwise what stood there
before. -/
theorem get?_resolveOnto (hkey : definition.resolve attributes = .ok key)
    {definitions : List KeyDefinition} (honly : definition.OnlyOneIn definitions)
    {keys result : Dict String} (h : resolveOnto attributes keys definitions = .ok result) :
    result.get? definition.name =
      if definition ∈ definitions then some key else keys.get? definition.name := by
  induction definitions generalizing keys with
  | nil =>
    cases h
    rw [if_neg (List.not_mem_nil)]
  | cons first rest ih =>
    rw [resolveOnto, bind_eq_ok_iff] at h
    obtain ⟨text, hfirst, h⟩ := h
    have hrest := ih (fun other hother => honly other (List.mem_cons_of_mem _ hother)) h
    rw [hrest, Dict.get?_insert]
    -- Under the name of the definition only the definition itself writes.
    by_cases hname : definition.name = first.name
    · have heq : first = definition := honly first List.mem_cons_self hname.symm
      subst heq
      rw [hkey] at hfirst
      cases hfirst
      simp
    · have hne : definition ≠ first := fun heq => hname (congrArg KeyDefinition.name heq)
      rw [if_neg hname]
      simp [hne]

/-- The keys of an item hold the key of a definition, or nothing, under its name: each index that is added
leaves it so. Once the definition is in them, or an index that has it is added, they hold its key. -/
theorem get?_addIndexKeys {model : Model} (hkey : definition.resolve attributes = .ok key)
    (honly : definition.OnlyOneIn (model.key ++ model.indexKeys)) {indexes : List IndexDefinition}
    {keys result : Dict String} (h : model.addIndexKeys attributes keys indexes = .ok result)
    (hkeys : keys.get? definition.name = none ∨ keys.get? definition.name = some key) :
    (keys.get? definition.name = some key ∨ model.Holds attributes definition indexes) →
      result.get? definition.name = some key := by
  induction indexes generalizing keys with
  | nil =>
    cases h
    rintro (hsome | ⟨index, hindex, _⟩)
    · exact hsome
    · cases hindex
  | cons index rest ih =>
    rw [Model.addIndexKeys_cons, bind_eq_ok_iff] at h
    obtain ⟨part, hpart, hrest⟩ := h
    rcases Model.indexPart_eq_ok_iff.1 hpart with hmore | ⟨rfl, text, names, hmissing⟩
    · obtain ⟨found, hfound, hmore⟩ := Model.resolveIndexKeys_eq_ok_iff.1 hmore
      have hsubset : ∀ other ∈ found.key, other ∈ model.key ++ model.indexKeys := fun other hother =>
        List.mem_append_right _ (List.mem_flatMap.2 ⟨found, (Model.of_index? hfound).1, hother⟩)
      have hget := get?_resolveOnto hkey (fun other hother => honly other (hsubset other hother)) hmore
      -- The index writes the key of the definition, or nothing under its name.
      by_cases hmem : definition ∈ found.key
      · rw [if_pos hmem] at hget
        have hnow : (keys.extend part).get? definition.name = some key := by
          rw [Dict.get?_extend, hget, Option.some_or]
        exact fun _ => ih hrest (Or.inr hnow) (Or.inl hnow)
      · rw [if_neg hmem, Dict.get?_empty] at hget
        have hsame : (keys.extend part).get? definition.name = keys.get? definition.name := by
          rw [Dict.get?_extend, hget, Option.none_or]
        rintro (hsome | hholds)
        · exact ih hrest (hsame ▸ hkeys) (Or.inl (hsame.trans hsome))
        · refine ih hrest (hsame ▸ hkeys) (Or.inr (hholds.of_cons fun other hother hin => ?_))
          rw [hfound] at hother
          cases hother
          exact absurd hin hmem
    -- The index was left out, so it does not hold the item.
    · rintro (hsome | hholds)
      · exact ih hrest hkeys (Or.inl hsome)
      · refine ih hrest hkeys (Or.inr (hholds.of_cons fun found hfound _ more hmore => ?_))
        rw [Model.resolveIndexKeys_eq_ok_iff.2 ⟨found, hfound, hmore⟩] at hmissing
        cases hmissing

/-- The keys of an item hold the key of every definition of the primary key and of every index that holds the
item. -/
theorem get?_resolveItemKeys {model : Model} (hkey : definition.resolve attributes = .ok key)
    (honly : definition.OnlyOneIn (model.key ++ model.indexKeys)) {keys : Dict String}
    (h : model.resolveItemKeys attributes = .ok keys)
    (hin : definition ∈ model.key ∨ model.Holds attributes definition model.indexes) :
    keys.get? definition.name = some key := by
  rw [Model.resolveItemKeys, bind_eq_ok_iff] at h
  obtain ⟨primary, hprimary, h⟩ := h
  have hget : primary.get? definition.name = if definition ∈ model.key then some key else none :=
    get?_resolveOnto hkey (fun other hother => honly other (List.mem_append_left _ hother)) hprimary
  by_cases hmem : definition ∈ model.key
  · rw [if_pos hmem] at hget
    exact get?_addIndexKeys hkey honly h (Or.inr hget) (Or.inl hget)
  · rw [if_neg hmem] at hget
    exact get?_addIndexKeys hkey honly h (Or.inl hget) (Or.inr (hin.resolve_left hmem))

end SingleTable
