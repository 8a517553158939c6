import SingleTable.Proofs.Model.SparseIndexes

/-!
# Keys of an item as strict keys

The keys of an item are built index by index, each index found under its name and left out if it is not
resolved; strict keys come from one pass through all definitions. If every index is resolved the two are the
same (`Model.resolveItemKeys_eq_resolveKeys`), also where indexes share names with each other or with the
primary key: in both the last definition of a name counts. In general the keys of an item are the strict keys
of the model without the indexes that are not resolved (`item_keys_refine_strict_keys`), so none of them comes
from a half-resolved index.
-/

set_option autoImplicit false

namespace SingleTable

variable {model : Model} {attributes : Dict Value} {keys result : Dict String} {index : IndexDefinition}
  {indexes : List IndexDefinition}

/-! ## Definitions in two passes -/

section Passes

variable {definitions front back : List KeyDefinition}

/-- Definitions can be resolved in two passes. -/
theorem resolveOnto_append :
    resolveOnto attributes keys (front ++ back) =
      resolveOnto attributes keys front >>= fun found => resolveOnto attributes found back := by
  induction front generalizing keys with
  | nil => rfl
  | cons first rest ih =>
    rw [List.cons_append, resolveOnto, resolveOnto, bind_assoc]
    congr 1
    funext key
    exact ih

/-- The second pass can write over the keys of the first one afterwards. -/
theorem resolveOnto_extend {more : Dict String} :
    resolveOnto attributes (keys.extend more) definitions =
      (resolveOnto attributes more definitions).map keys.extend := by
  induction definitions generalizing more with
  | nil => rfl
  | cons first rest ih =>
    rw [resolveOnto, resolveOnto]
    cases first.resolve attributes with
    | error failure => rfl
    | ok key =>
      have hinsert : (keys.extend more).insert first.name key = keys.extend (more.insert first.name key) := by
        apply Dict.ext_get?
        intro name
        rw [Dict.get?_insert, Dict.get?_extend, Dict.get?_extend, Dict.get?_insert]
        split
        · rfl
        · rfl
      exact (congrArg (resolveOnto attributes · rest) hinsert).trans ih

/-- Definitions that resolve by themselves are added as a whole. -/
theorem resolveOnto_of_resolved (h : resolveOnto attributes .empty definitions = .ok result) :
    resolveOnto attributes keys definitions = .ok (keys.extend result) := by
  have hextend : resolveOnto attributes (keys.extend .empty) definitions =
      (resolveOnto attributes .empty definitions).map keys.extend := resolveOnto_extend
  rw [h] at hextend
  exact hextend

end Passes

namespace Model

/-! ## Indexes that are resolved -/

/-- Whether an index is resolved under its name. -/
def resolves (model : Model) (attributes : Dict Value) (index : IndexDefinition) : Bool :=
  (model.resolveIndexKeys index.name attributes).toOption.isSome

theorem resolves_iff :
    model.resolves attributes index = true ↔
      ∃ more, model.resolveIndexKeys index.name attributes = .ok more := by
  rw [resolves]
  cases model.resolveIndexKeys index.name attributes with
  | ok more => simp [Except.toOption]
  | error failure => simp [Except.toOption]

/-- Among different names, an index is resolved exactly if each of its definitions is. -/
theorem resolves_iff_of_mem (hnames : model.indexNames.Nodup) (hmem : index ∈ model.indexes) :
    model.resolves attributes index = true ↔
      ∀ definition ∈ index.key, ∃ key, definition.resolve attributes = .ok key := by
  rw [resolves_iff, resolveIndexKeys_of_mem hnames hmem]
  exact exists_resolveOnto_iff

/-- Adding indexes that are resolved is one pass through their definitions. -/
theorem addIndexKeys_of_resolves (hnames : model.indexNames.Nodup)
    (hsub : ∀ index ∈ indexes, index ∈ model.indexes)
    (hresolves : ∀ index ∈ indexes, model.resolves attributes index = true) :
    model.addIndexKeys attributes keys indexes = resolveOnto attributes keys (indexes.flatMap (·.key)) := by
  induction indexes generalizing keys with
  | nil => rfl
  | cons first rest ih =>
    obtain ⟨hfirst, hmore⟩ := List.forall_mem_cons.1 hsub
    obtain ⟨hheld, hlater⟩ := List.forall_mem_cons.1 hresolves
    obtain ⟨part, hpart⟩ := resolves_iff.1 hheld
    have hkeys : resolveOnto attributes .empty first.key = .ok part := by
      rw [← resolveIndexKeys_of_mem hnames hfirst, hpart]
    rw [addIndexKeys_cons, indexPart_eq_ok_iff.2 (Or.inl hpart), List.flatMap_cons, resolveOnto_append,
      resolveOnto_of_resolved hkeys]
    exact ih hmore hlater

/-- If every index is resolved, the keys of an item are the strict keys of all definitions. -/
theorem resolveItemKeys_eq_resolveKeys (hnames : model.indexNames.Nodup)
    (hresolves : ∀ index ∈ model.indexes, model.resolves attributes index = true) :
    model.resolveItemKeys attributes = model.resolveKeys attributes .all := by
  have hall : model.selected .all = model.selected .primary ++ model.indexes.flatMap (·.key) := rfl
  rw [resolveItemKeys, resolveKeys, resolveKeys, hall, resolveOnto_append]
  congr 1
  funext primary
  exact addIndexKeys_of_resolves hnames (fun _ => id) hresolves

/-- An index that does not make the keys of an item fail and is not resolved adds nothing. -/
theorem indexPart_of_not_resolves (hkeys : model.resolveItemKeys attributes = .ok keys)
    (hmem : index ∈ model.indexes) (hnot : model.resolves attributes index = false) :
    model.indexPart attributes index = .ok .empty := by
  rw [resolveItemKeys, bind_eq_ok_iff] at hkeys
  obtain ⟨primary, -, hkeys⟩ := hkeys
  obtain ⟨part, hpart⟩ := exists_indexPart_of_addIndexKeys hkeys index hmem
  rcases indexPart_eq_ok_iff.1 hpart with hmore | ⟨rfl, -⟩
  · rw [resolves_iff.2 ⟨part, hmore⟩] at hnot
    cases hnot
  · exact hpart

/-- The keys of an item are the strict keys of the model with the indexes that are resolved. -/
theorem resolveKeys_keeping_of_resolveItemKeys (hnames : model.indexNames.Nodup)
    (hkeys : model.resolveItemKeys attributes = .ok keys) :
    (model.keeping (model.resolves attributes)).resolveKeys attributes .all = .ok keys := by
  rw [← resolveItemKeys_eq_resolveKeys (indexNames_keeping hnames), resolveItemKeys_keeping hnames, hkeys]
  · exact fun index hmem hnot => indexPart_of_not_resolves hkeys hmem hnot
  · intro index hmem
    obtain ⟨hin, hresolves⟩ := List.mem_filter.1 hmem
    rw [resolves_iff_of_mem (indexNames_keeping hnames) hmem]
    exact (resolves_iff_of_mem hnames hin).1 hresolves

end Model

/-- **Keys of an item refine strict keys.** Let the names of the indexes be different. If all definitions can be
resolved strictly, an item has just those keys. Whatever keys an item has, they are those of the primary key,
extended in order of declaration by the keys of the indexes that are resolved. They come from the definitions of
the primary key and of these indexes, every one of which is resolved, and the last definition of a name counts;
an index is among these exactly if each of its definitions is resolved. -/
theorem item_keys_refine_strict_keys (hnames : model.indexNames.Nodup) (attributes : Dict Value) :
    (∀ keys, model.resolveKeys attributes .all = .ok keys → model.resolveItemKeys attributes = .ok keys) ∧
    ∀ keys, model.resolveItemKeys attributes = .ok keys →
      (∃ primary, model.resolveKeys attributes .primary = .ok primary ∧
        keys = (model.indexes.filterMap fun index =>
          (model.resolveIndexKeys index.name attributes).toOption).foldl Dict.extend primary) ∧
      KeysOutcome ((model.keeping (model.resolves attributes)).selected .all) attributes (.ok keys) ∧
      ∀ index ∈ model.indexes, index ∈ (model.keeping (model.resolves attributes)).indexes ↔
        ∀ definition ∈ index.key, ∃ key, definition.resolve attributes = .ok key := by
  constructor
  · intro keys hkeys
    rw [← hkeys]
    refine Model.resolveItemKeys_eq_resolveKeys hnames fun index hmem => ?_
    rw [Model.resolves_iff_of_mem hnames hmem]
    intro definition hdefinition
    exact exists_resolveOnto_iff.1 ⟨keys, hkeys⟩ definition
      (List.mem_append_right _ (List.mem_flatMap.2 ⟨index, hmem, hdefinition⟩))
  · intro keys hkeys
    refine ⟨?_, resolveOnto_eq_iff.1 (Model.resolveKeys_keeping_of_resolveItemKeys hnames hkeys), ?_⟩
    · rw [Model.resolveItemKeys, bind_eq_ok_iff] at hkeys
      obtain ⟨primary, hprimary, hkeys⟩ := hkeys
      exact ⟨primary, hprimary, Model.eq_foldl_of_addIndexKeys hkeys⟩
    · intro index hmem
      rw [← Model.resolves_iff_of_mem hnames hmem]
      exact List.mem_filter.trans (and_iff_right hmem)

/-! ### Notes in folders -/

/-- Notes with two indexes that share a key, one of which shares another key with the table. -/
def notes : Model where
  name := "Note"
  table := "app"
  key := [⟨"PK", "NOTE#${id}"⟩, ⟨"SK", "${id}"⟩]
  indexes := [⟨"byOwner", [⟨"GPK", "OWNER#${owner}"⟩, ⟨"SK", "${owner}"⟩]⟩,
    ⟨"byFolder", [⟨"GPK", "FOLDER#${folder}"⟩, ⟨"GSK", "${title}"⟩]⟩]

/-- A note in a folder. -/
def note : Dict Value := .ofList [("id", .number "7"), ("owner", .string "ann"), ("folder", .string "in")]

/-- A note without a title is not in the index by folder, so the key that both indexes share is that of its
owner. With a title it is in both, and the key is that of its folder. -/
theorem item_keys_refine_strict_keys_notes :
    notes.indexNames.Nodup ∧
    (∃ keys, notes.resolveItemKeys note = .ok keys ∧
      KeysOutcome (notes.key ++ [⟨"GPK", "OWNER#${owner}"⟩, ⟨"SK", "${owner}"⟩]) note (.ok keys)) ∧
    notes.resolveItemKeys (note.insert "title" (.string "hello")) =
      .ok (.ofList [("PK", "NOTE#7"), ("SK", "ann"), ("GPK", "FOLDER#in"), ("GSK", "hello")]) := by
  have hnames : notes.indexNames.Nodup := by decide
  have hkeys : notes.resolveItemKeys note =
      .ok (.ofList [("PK", "NOTE#7"), ("SK", "ann"), ("GPK", "OWNER#ann")]) := by decide +kernel
  have hselected : (notes.keeping (notes.resolves note)).selected .all =
      notes.key ++ [⟨"GPK", "OWNER#${owner}"⟩, ⟨"SK", "${owner}"⟩] := by decide +kernel
  obtain ⟨-, houtcome, -⟩ := (item_keys_refine_strict_keys hnames note).2 _ hkeys
  rw [hselected] at houtcome
  exact ⟨hnames, ⟨_, hkeys, houtcome⟩,
    (item_keys_refine_strict_keys hnames _).1 _ (by decide +kernel)⟩

end SingleTable
