import SingleTable.Proofs.Condition.Maps
import SingleTable.Proofs.Model.Keys
import SingleTable.Proofs.Model.Resolution

/-!
# Indexes that do not hold an item

An item has the keys of the primary key and those of the indexes that hold it. An index is sparse for an item if
an attribute that it refers to is absent (`IndexDefinition.IsSparse`). It is left out then, unless its
definitions reach a value that has no text before the first definition with an absent attribute: such an index
blocks the item (`IndexDefinition.Blocks`), and so does any index whose attributes are all present if one of them
has no text. The first index that blocks gives its failure (`sparse_indexes_left_out`).
-/

set_option autoImplicit false

namespace SingleTable

variable {model : Model} {attributes : Dict Value} {keys result : Dict String} {index : IndexDefinition}
  {indexes : List IndexDefinition} {failure : Failure}

/-! ## Sparse and unwritable definitions -/

/-- A failure that names absent attributes. -/
def Failure.IsMissing : Failure → Prop
  | .missingReferences _ _ => True
  | _ => False

namespace KeyDefinition

variable {definition : KeyDefinition}

/-- The attributes that a definition refers to, in order. -/
def references (definition : KeyDefinition) : List String := (Template.parse definition.template).references

/-- An attribute that the definition refers to is absent. -/
def IsSparse (definition : KeyDefinition) (attributes : Dict Value) : Prop :=
  ∃ name ∈ definition.references, attributes.get? name = none

/-- All attributes that the definition refers to are present, and one of them has no text. -/
def IsUnwritable (definition : KeyDefinition) (attributes : Dict Value) : Prop :=
  ¬ definition.IsSparse attributes ∧
    ∃ name ∈ definition.references, ∃ value,
      attributes.get? name = some value ∧ value.kind ∉ Value.scalarKinds

theorem isSparse_iff :
    definition.IsSparse attributes ↔
      ∃ failure, definition.resolve attributes = .error failure ∧ failure.IsMissing := by
  rw [IsSparse, references, ← Template.exists_missing_iff]
  constructor
  · rintro ⟨text, names, h⟩
    exact ⟨_, h, trivial⟩
  · rintro ⟨failure, h, hmissing⟩
    cases failure with
    | missingReferences text names => exact ⟨text, names, h⟩
    | _ => exact hmissing.elim

theorem isUnwritable_iff :
    definition.IsUnwritable attributes ↔
      ∃ failure, definition.resolve attributes = .error failure ∧ ¬ failure.IsMissing := by
  rw [IsUnwritable, isSparse_iff]
  constructor
  · rintro ⟨hpresent, name, hname, value, hvalue, hkind⟩
    cases hresult : definition.resolve attributes with
    | ok key =>
      obtain ⟨other, hother, hscalar⟩ := Template.exists_resolve_iff.1 ⟨key, hresult⟩ name hname
      rw [hvalue] at hother
      cases hother
      exact absurd hscalar hkind
    | error failure => exact ⟨failure, rfl, fun hmissing => hpresent ⟨failure, hresult, hmissing⟩⟩
  · rintro ⟨failure, hfails, hpresent⟩
    refine ⟨?_, ?_⟩
    · rintro ⟨other, hother, hmissing⟩
      rw [hfails] at hother
      cases hother
      exact hpresent hmissing
    · cases Template.resolve_eq_iff.1 hfails with
      | missing => exact absurd trivial hpresent
      | unsupported front back name value hbound hcut hfront hvalue hkind =>
        refine ⟨name, ?_, value, hvalue, hkind⟩
        rw [references, hcut]
        exact List.mem_append_right front List.mem_cons_self

end KeyDefinition

/-! ## Blocking definitions -/

/-- A definition of a list is unwritable, and no definition in front of it is sparse. -/
def Blocking (attributes : Dict Value) (definitions : List KeyDefinition) : Prop :=
  ∃ front definition back, definitions = front ++ definition :: back ∧
    definition.IsUnwritable attributes ∧ ∀ earlier ∈ front, ¬ earlier.IsSparse attributes

theorem not_blocking_nil : ¬ Blocking attributes [] := by
  rintro ⟨front, definition, back, h, -⟩
  cases front <;> cases h

theorem blocking_cons_iff {first : KeyDefinition} {rest : List KeyDefinition} :
    Blocking attributes (first :: rest) ↔
      first.IsUnwritable attributes ∨ ¬ first.IsSparse attributes ∧ Blocking attributes rest := by
  constructor
  · rintro ⟨front, definition, back, hcut, hunwritable, hfront⟩
    cases front with
    | nil =>
      cases hcut
      exact Or.inl hunwritable
    | cons earlier front =>
      cases hcut
      obtain ⟨hfirst, hmore⟩ := List.forall_mem_cons.1 hfront
      exact Or.inr ⟨hfirst, front, definition, back, rfl, hunwritable, hmore⟩
  · rintro (hunwritable | ⟨hfirst, front, definition, back, rfl, hunwritable, hfront⟩)
    · exact ⟨[], first, rest, rfl, hunwritable, nofun⟩
    · exact ⟨first :: front, definition, back, rfl, hunwritable, List.forall_mem_cons.2 ⟨hfirst, hfront⟩⟩

/-- Definitions are blocking exactly if the first of them that fails does not name absent attributes. -/
theorem blocking_iff {definitions : List KeyDefinition} :
    Blocking attributes definitions ↔
      ∃ failure, FailsFirst (·.resolve attributes) definitions failure ∧ ¬ failure.IsMissing := by
  induction definitions with
  | nil => exact iff_of_false not_blocking_nil fun ⟨_, h, _⟩ => not_failsFirst_nil h
  | cons first rest ih =>
    rw [blocking_cons_iff, KeyDefinition.isUnwritable_iff, KeyDefinition.isSparse_iff, ih]
    simp only [failsFirst_cons_iff]
    cases first.resolve attributes with
    | ok key => simp
    | error cause =>
      constructor
      · rintro (⟨failure, hfails, hother⟩ | ⟨hpresent, -⟩)
        · exact ⟨failure, Or.inl hfails, hother⟩
        · exact ⟨cause, Or.inl rfl, fun hmissing => hpresent ⟨cause, rfl, hmissing⟩⟩
      · rintro ⟨failure, hfails | ⟨⟨key, hok⟩, -⟩, hother⟩
        · exact Or.inl ⟨failure, hfails, hother⟩
        · cases hok

namespace IndexDefinition

/-- An attribute that the index refers to is absent. -/
def IsSparse (index : IndexDefinition) (attributes : Dict Value) : Prop :=
  ∃ definition ∈ index.key, definition.IsSparse attributes

/-- A value without a text ends the resolution of the index before an absent attribute does. -/
def Blocks (index : IndexDefinition) (attributes : Dict Value) : Prop := Blocking attributes index.key

/-- An index whose attributes are all present blocks exactly if one of them has no text. -/
theorem blocks_of_present (h : ¬ index.IsSparse attributes) :
    index.Blocks attributes ↔ ∃ definition ∈ index.key, definition.IsUnwritable attributes := by
  constructor
  · rintro ⟨front, definition, back, hcut, hunwritable, -⟩
    exact ⟨definition, hcut ▸ List.mem_append_right front List.mem_cons_self, hunwritable⟩
  · rintro ⟨definition, hmem, hunwritable⟩
    obtain ⟨front, back, hcut⟩ := List.append_of_mem hmem
    refine ⟨front, definition, back, hcut, hunwritable, fun earlier hearlier hsparse => ?_⟩
    exact h ⟨earlier, hcut ▸ List.mem_append_left _ hearlier, hsparse⟩

/-- A sparse index that does not block is resolved up to its first absent attribute. -/
theorem missing_of_sparse (hsparse : index.IsSparse attributes) (hblocks : ¬ index.Blocks attributes) :
    ∃ text names, resolveOnto attributes .empty index.key = .error (.missingReferences text names) := by
  cases hresult : resolveOnto attributes .empty index.key with
  | ok more =>
    obtain ⟨definition, hmem, hdefinition⟩ := hsparse
    obtain ⟨failure, hfails, -⟩ := KeyDefinition.isSparse_iff.1 hdefinition
    obtain ⟨key, hkey⟩ := exists_resolveOnto_iff.1 ⟨more, hresult⟩ definition hmem
    rw [hfails] at hkey
    cases hkey
  | error failure =>
    have hmissing : failure.IsMissing := by
      by_contra hother
      exact hblocks (blocking_iff.2 ⟨failure, resolveOnto_eq_error_iff.1 hresult, hother⟩)
    cases failure with
    | missingReferences text names => exact ⟨text, names, rfl⟩
    | _ => exact hmissing.elim

end IndexDefinition

/-! ## One index of a model -/

namespace Model

/-- The names of the indexes. -/
def indexNames (model : Model) : List String := model.indexes.map (·.name)

/-- Among different names an index is found under its own. -/
theorem index?_of_mem (hnames : model.indexNames.Nodup) (hmem : index ∈ model.indexes) :
    model.index? index.name = some index := by
  cases hfound : model.index? index.name with
  | none => exact absurd (decide_eq_true rfl) (List.find?_eq_none.1 hfound index hmem)
  | some found =>
    obtain ⟨hin, hname⟩ := of_index? hfound
    rw [List.inj_on_of_nodup_map hnames hin hmem hname]

theorem resolveIndexKeys_of_mem (hnames : model.indexNames.Nodup) (hmem : index ∈ model.indexes) :
    model.resolveIndexKeys index.name attributes = resolveOnto attributes .empty index.key := by
  rw [resolveIndexKeys, index?_of_mem hnames hmem]

theorem indexPart_eq_error_iff (hnames : model.indexNames.Nodup) (hmem : index ∈ model.indexes) :
    model.indexPart attributes index = .error failure ↔
      FailsFirst (·.resolve attributes) index.key failure ∧ ¬ failure.IsMissing := by
  have hfirst : resolveOnto attributes .empty index.key = .error failure ↔
      FailsFirst (·.resolve attributes) index.key failure := resolveOnto_eq_error_iff
  rw [indexPart, resolveIndexKeys_of_mem hnames hmem, ← hfirst]
  cases resolveOnto attributes .empty index.key with
  | ok more => simp
  | error cause =>
    cases cause with
    | missingReferences text names =>
      constructor
      · intro h
        cases h
      · rintro ⟨h, hother⟩
        cases h
        exact absurd trivial hother
    | _ =>
      constructor
      · rintro h
        cases h
        exact ⟨rfl, id⟩
      · rintro ⟨h, -⟩
        cases h
        rfl

theorem exists_indexPart_iff (hnames : model.indexNames.Nodup) (hmem : index ∈ model.indexes) :
    (∃ part, model.indexPart attributes index = .ok part) ↔ ¬ index.Blocks attributes := by
  rw [IndexDefinition.Blocks, blocking_iff]
  simp only [← indexPart_eq_error_iff hnames hmem]
  cases model.indexPart attributes index with
  | ok part => simp
  | error cause => simp

theorem indexPart_of_sparse (hnames : model.indexNames.Nodup) (hmem : index ∈ model.indexes)
    (hsparse : index.IsSparse attributes) (hblocks : ¬ index.Blocks attributes) :
    model.indexPart attributes index = .ok .empty := by
  obtain ⟨text, names, hmissing⟩ := IndexDefinition.missing_of_sparse hsparse hblocks
  rw [indexPart, resolveIndexKeys_of_mem hnames hmem, hmissing]

/-! ## The indexes in order -/

/-- Adding indexes fails with the first of them that fails. -/
theorem addIndexKeys_eq_error_iff :
    model.addIndexKeys attributes keys indexes = .error failure ↔
      FailsFirst (model.indexPart attributes) indexes failure := by
  induction indexes generalizing keys with
  | nil => exact iff_of_false nofun not_failsFirst_nil
  | cons first rest ih =>
    rw [addIndexKeys_cons, failsFirst_cons_iff]
    cases model.indexPart attributes first with
    | error cause => simp [bind, Except.bind]
    | ok part => simpa [bind, Except.bind] using ih

/-- If indexes are added, none of them fails. -/
theorem exists_indexPart_of_addIndexKeys (h : model.addIndexKeys attributes keys indexes = .ok result) :
    ∀ index ∈ indexes, ∃ part, model.indexPart attributes index = .ok part := by
  induction indexes generalizing keys with
  | nil => exact nofun
  | cons first rest ih =>
    rw [addIndexKeys_cons, bind_eq_ok_iff] at h
    obtain ⟨part, hpart, hrest⟩ := h
    exact List.forall_mem_cons.2 ⟨⟨part, hpart⟩, ih hrest⟩

/-- Adding indexes adds the keys of those that are resolved, in order. -/
theorem eq_foldl_of_addIndexKeys (h : model.addIndexKeys attributes keys indexes = .ok result) :
    result = (indexes.filterMap fun index =>
      (model.resolveIndexKeys index.name attributes).toOption).foldl Dict.extend keys := by
  induction indexes generalizing keys with
  | nil =>
    cases h
    rfl
  | cons first rest ih =>
    rw [addIndexKeys_cons, bind_eq_ok_iff] at h
    obtain ⟨part, hpart, hrest⟩ := h
    rw [ih hrest]
    rcases indexPart_eq_ok_iff.1 hpart with hmore | ⟨rfl, text, names, hmissing⟩
    · rw [List.filterMap_cons_some (by rw [hmore]; rfl), List.foldl_cons]
    · rw [List.filterMap_cons_none (by rw [hmissing]; rfl)]
      rfl

/-! ## Models with fewer indexes -/

/-- The model with the given ones of its indexes only. -/
def keeping (model : Model) (kept : IndexDefinition → Bool) : Model :=
  { model with indexes := model.indexes.filter kept }

variable {kept : IndexDefinition → Bool}

theorem indexNames_keeping (hnames : model.indexNames.Nodup) : (model.keeping kept).indexNames.Nodup :=
  hnames.sublist (List.filter_sublist.map _)

/-- Indexes that add nothing can be left out of the model. -/
theorem addIndexKeys_keeping (hnames : model.indexNames.Nodup) (hsub : ∀ index ∈ indexes, index ∈ model.indexes)
    (hdropped : ∀ index ∈ indexes, kept index = false → model.indexPart attributes index = .ok .empty) :
    (model.keeping kept).addIndexKeys attributes keys (indexes.filter kept) =
      model.addIndexKeys attributes keys indexes := by
  induction indexes generalizing keys with
  | nil => rfl
  | cons first rest ih =>
    obtain ⟨hfirst, hmore⟩ := List.forall_mem_cons.1 hsub
    obtain ⟨hnothing, hlater⟩ := List.forall_mem_cons.1 hdropped
    rw [addIndexKeys_cons]
    cases hkept : kept first with
    | false =>
      rw [List.filter_cons_of_neg (by rw [hkept]; exact Bool.false_ne_true), hnothing hkept]
      exact ih hmore hlater
    | true =>
      have hin : first ∈ (model.keeping kept).indexes := List.mem_filter.2 ⟨hfirst, hkept⟩
      have hsame : (model.keeping kept).indexPart attributes first = model.indexPart attributes first := by
        rw [indexPart, indexPart, resolveIndexKeys_of_mem (indexNames_keeping hnames) hin,
          resolveIndexKeys_of_mem hnames hfirst]
      rw [List.filter_cons_of_pos hkept, addIndexKeys_cons, hsame]
      congr 1
      funext part
      exact ih hmore hlater

theorem resolveItemKeys_keeping (hnames : model.indexNames.Nodup)
    (hdropped : ∀ index ∈ model.indexes, kept index = false →
      model.indexPart attributes index = .ok .empty) :
    (model.keeping kept).resolveItemKeys attributes = model.resolveItemKeys attributes := by
  rw [resolveItemKeys, resolveItemKeys]
  congr 1
  funext primary
  exact addIndexKeys_keeping hnames (fun _ => id) hdropped

end Model

/-- **Which sparse indexes are left out.** Let the names of the indexes be different and the primary key
resolve. Sparse indexes that do not block the item add nothing: the model without them gives the same keys. The
keys of an item fail exactly with the first failure of the first index that blocks it. An index whose attributes
are all present blocks exactly if one of them has no text; a sparse one may do so too. -/
theorem sparse_indexes_left_out (hnames : model.indexNames.Nodup) {primary : Dict String}
    (hprimary : model.resolveKeys attributes .primary = .ok primary) :
    (∀ kept : IndexDefinition → Bool,
      (∀ index ∈ model.indexes, kept index = false →
        index.IsSparse attributes ∧ ¬ index.Blocks attributes) →
      (model.keeping kept).resolveItemKeys attributes = model.resolveItemKeys attributes) ∧
    (∀ failure, model.resolveItemKeys attributes = .error failure ↔
      ∃ front index back, model.indexes = front ++ index :: back ∧
        (∀ earlier ∈ front, ¬ earlier.Blocks attributes) ∧
        index.Blocks attributes ∧ FailsFirst (·.resolve attributes) index.key failure) ∧
    ∀ index : IndexDefinition, ¬ index.IsSparse attributes →
      (index.Blocks attributes ↔ ∃ definition ∈ index.key, definition.IsUnwritable attributes) := by
  refine ⟨?_, ?_, fun index => IndexDefinition.blocks_of_present⟩
  · intro kept hdropped
    refine Model.resolveItemKeys_keeping hnames fun index hmem hkept => ?_
    obtain ⟨hsparse, hblocks⟩ := hdropped index hmem hkept
    exact Model.indexPart_of_sparse hnames hmem hsparse hblocks
  · intro failure
    have hkeys : model.resolveItemKeys attributes = model.addIndexKeys attributes primary model.indexes := by
      rw [Model.resolveItemKeys, hprimary]
      rfl
    rw [hkeys, Model.addIndexKeys_eq_error_iff]
    -- The indexes in front are members of the list, so that each of them is found under its name.
    have hfront : ∀ {front index back}, model.indexes = front ++ index :: back →
        index ∈ model.indexes ∧ ∀ earlier ∈ front, earlier ∈ model.indexes := fun hcut =>
      ⟨hcut ▸ List.mem_append_right _ List.mem_cons_self,
        fun earlier hearlier => hcut ▸ List.mem_append_left _ hearlier⟩
    constructor
    · rintro ⟨front, index, back, hcut, hearlier, hfails⟩
      obtain ⟨hmem, hmems⟩ := hfront hcut
      obtain ⟨hfirst, hother⟩ := (Model.indexPart_eq_error_iff hnames hmem).1 hfails
      exact ⟨front, index, back, hcut,
        fun earlier hin => (Model.exists_indexPart_iff hnames (hmems earlier hin)).1 (hearlier earlier hin),
        blocking_iff.2 ⟨failure, hfirst, hother⟩, hfirst⟩
    · rintro ⟨front, index, back, hcut, hearlier, hblocks, hfirst⟩
      obtain ⟨hmem, hmems⟩ := hfront hcut
      refine ⟨front, index, back, hcut,
        fun earlier hin => (Model.exists_indexPart_iff hnames (hmems earlier hin)).2 (hearlier earlier hin),
        (Model.indexPart_eq_error_iff hnames hmem).2 ⟨hfirst, ?_⟩⟩
      -- Definitions have one first failure, so it is the one that blocks.
      obtain ⟨cause, hcause, hother⟩ := blocking_iff.1 hblocks
      have hsame : resolveOnto attributes .empty index.key = .error failure :=
        resolveOnto_eq_error_iff.2 hfirst
      rw [resolveOnto_eq_error_iff.2 hcause] at hsame
      cases hsame
      exact hother

/-! ### Events without a time -/

/-- Events with an index by time and one by tag. -/
def events : Model where
  name := "Event"
  table := "app"
  key := [⟨"PK", "EVENT#${id}"⟩]
  indexes := [⟨"byTime", [⟨"TSK", "TIME#${time}"⟩, ⟨"TPK", "TAG#${tags}"⟩]⟩,
    ⟨"byTag", [⟨"TPK", "TAG#${tags}"⟩, ⟨"TSK", "TIME#${time}"⟩]⟩]

/-- An event with tags and without a time. -/
def event : Dict Value := .ofList [("id", .string "1"), ("tags", .stringSet ["a"])]

/-- Both indexes refer to the absent time. -/
theorem isSparse_of_mem_events {index : IndexDefinition} (hmem : index ∈ events.indexes) :
    index.IsSparse event := by
  refine ⟨⟨"TSK", "TIME#${time}"⟩, ?_, "time", by decide +kernel, by decide +kernel⟩
  rcases List.mem_pair.1 hmem with rfl | rfl
  · exact List.mem_cons_self
  · exact List.mem_cons_of_mem _ List.mem_cons_self

theorem sparse_indexes_left_out_events :
    events.indexNames.Nodup ∧
    events.resolveKeys event .primary = .ok (.ofList [("PK", "EVENT#1")]) ∧
    (events.keeping fun index => index.name ≠ "byTime").resolveItemKeys event =
      events.resolveItemKeys event ∧
    ∃ index ∈ events.indexes, index.IsSparse event ∧ index.Blocks event := by
  have hnames : events.indexNames.Nodup := by decide
  have hprimary : events.resolveKeys event .primary = .ok (.ofList [("PK", "EVENT#1")]) := by
    decide +kernel
  obtain ⟨hleft, hfails, -⟩ := sparse_indexes_left_out hnames hprimary
  refine ⟨hnames, hprimary, hleft _ fun index hmem hdropped => ?_, ?_⟩
  · refine ⟨isSparse_of_mem_events hmem, fun hblocks => ?_⟩
    -- The first definition of the index by time refers to the time, which is absent.
    have htime : KeyDefinition.IsSparse ⟨"TSK", "TIME#${time}"⟩ event :=
      ⟨"time", by decide +kernel, by decide +kernel⟩
    rcases List.mem_pair.1 hmem with rfl | rfl
    · rcases blocking_cons_iff.1 hblocks with ⟨hpresent, -⟩ | ⟨hpresent, -⟩
      · exact hpresent htime
      · exact hpresent htime
    · exact absurd hdropped (by decide)
  · have hfailure : events.resolveItemKeys event =
        .error (.unsupportedValue "TAG#${tags}" "tags" .stringSet) := by decide +kernel
    obtain ⟨front, index, back, hcut, -, hblocks, -⟩ := (hfails _).1 hfailure
    have hmem : index ∈ events.indexes := hcut ▸ List.mem_append_right _ List.mem_cons_self
    exact ⟨index, hmem, isSparse_of_mem_events hmem, hblocks⟩

/-- An index that lacks an attribute can make the keys fail: here both do, and the one that refers to the tags
first gives its failure. -/
theorem sparse_index_blocks :
    events.indexNames.Nodup ∧
    events.resolveKeys event .primary = .ok (.ofList [("PK", "EVENT#1")]) ∧
    (∀ index ∈ events.indexes, index.IsSparse event) ∧
    events.resolveItemKeys event = .error (.unsupportedValue "TAG#${tags}" "tags" .stringSet) :=
  ⟨by decide, by decide +kernel, fun _ => isSparse_of_mem_events, by decide +kernel⟩

end SingleTable
