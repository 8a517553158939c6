import SingleTable.Proofs.Model.SparseIndexes
import SingleTable.Proofs.Request.ItemKeys
import SingleTable.Proofs.Template.Filling

/-!
# Items that are written back

A put adds the keys of an item to its attributes. The keys, every index that is left out and every failure depend
on the attributes that the templates refer to and on nothing else (`Model.resolveItemKeys_congr`). So if no
template refers to the name of a key, the written item has the keys of the item that was put: putting it again
changes nothing, and the other requests find it under the same key (`writing_back_is_stable`).
-/

set_option autoImplicit false

namespace SingleTable

/-! ## What keys depend on -/

/-- Attributes that have the same values under the given names. -/
def AgreeOn (names : List String) (attributes other : Dict Value) : Prop :=
  ∀ name ∈ names, attributes.get? name = other.get? name

/-- The names that the templates of a model refer to: those of the primary key and of every index. -/
def Model.references (model : Model) : List String :=
  (model.key ++ model.indexKeys).flatMap KeyDefinition.references

section Agreement

variable {attributes other : Dict Value}

/-- The key of a definition depends on the names that its template refers to. -/
theorem KeyDefinition.resolve_congr {definition : KeyDefinition}
    (h : AgreeOn definition.references attributes other) :
    definition.resolve attributes = definition.resolve other :=
  Template.resolve_congr h

/-- The keys of definitions depend on the names that their templates refer to. -/
theorem resolveOnto_congr {definitions : List KeyDefinition}
    (h : AgreeOn (definitions.flatMap KeyDefinition.references) attributes other) (keys : Dict String) :
    resolveOnto attributes keys definitions = resolveOnto other keys definitions := by
  induction definitions generalizing keys with
  | nil => rfl
  | cons first rest ih =>
    have hfirst : AgreeOn first.references attributes other := fun name hname =>
      h name (List.mem_append_left _ hname)
    have hrest : AgreeOn (rest.flatMap KeyDefinition.references) attributes other := fun name hname =>
      h name (List.mem_append_right _ hname)
    rw [resolveOnto, resolveOnto, KeyDefinition.resolve_congr hfirst]
    congr 1
    funext key
    exact ih hrest _

namespace Model

variable {model : Model}

/-- Agreement on the names of a model is one on the names of each of its definitions. -/
theorem agreeOn_definitions (h : AgreeOn model.references attributes other)
    {definitions : List KeyDefinition} (hsub : ∀ definition ∈ definitions,
      definition ∈ model.key ++ model.indexKeys) :
    AgreeOn (definitions.flatMap KeyDefinition.references) attributes other := by
  intro name hname
  obtain ⟨definition, hdefinition, hmem⟩ := List.mem_flatMap.1 hname
  exact h name (List.mem_flatMap.2 ⟨definition, hsub definition hdefinition, hmem⟩)

/-- The primary key depends on the names of a model. -/
theorem resolveKeys_primary_congr (h : AgreeOn model.references attributes other) :
    model.resolveKeys attributes .primary = model.resolveKeys other .primary :=
  resolveOnto_congr (agreeOn_definitions h fun _ hmem => List.mem_append_left _ hmem) _

/-- Whether an index is resolved, its keys and its failure depend on the names of a model. -/
theorem resolveIndexKeys_congr (h : AgreeOn model.references attributes other) (name : String) :
    model.resolveIndexKeys name attributes = model.resolveIndexKeys name other := by
  rw [resolveIndexKeys, resolveIndexKeys]
  cases hfound : model.index? name with
  | none => rfl
  | some found =>
    refine resolveOnto_congr (agreeOn_definitions h fun definition hmem => ?_) _
    exact List.mem_append_right _ (List.mem_flatMap.2 ⟨found, (of_index? hfound).1, hmem⟩)

/-- Adding the keys of indexes depends on the names of a model. -/
theorem addIndexKeys_congr (h : AgreeOn model.references attributes other) (keys : Dict String)
    (indexes : List IndexDefinition) :
    model.addIndexKeys attributes keys indexes = model.addIndexKeys other keys indexes := by
  induction indexes generalizing keys with
  | nil => rfl
  | cons index rest ih =>
    rw [addIndexKeys_cons, addIndexKeys_cons, indexPart, indexPart, resolveIndexKeys_congr h]
    congr 1
    funext part
    exact ih _

/-- **The keys of an item depend on the names that the templates refer to.** Attributes that agree on these names
give the same keys or the same failure. -/
theorem resolveItemKeys_congr (h : AgreeOn model.references attributes other) :
    model.resolveItemKeys attributes = model.resolveItemKeys other := by
  rw [resolveItemKeys, resolveItemKeys, resolveKeys_primary_congr h]
  congr 1
  funext keys
  exact addIndexKeys_congr h keys _

/-- The primary key that requests address depends on the names that the templates refer to. -/
theorem primaryKey_congr (h : AgreeOn model.references attributes other) :
    model.primaryKey attributes = model.primaryKey other := by
  rw [primaryKey, primaryKey, resolveKeys_primary_congr h]

end Model

end Agreement

/-! ## Written items -/

/-- Writing the same entries a second time changes nothing. -/
theorem Dict.extend_extend_self {α : Type} (dict other : Dict α) :
    (dict.extend other).extend other = dict.extend other := by
  apply Dict.ext_get?
  intro name
  rw [Dict.get?_extend, Dict.get?_extend]
  cases other.get? name with
  | none => rfl
  | some value => rfl

/-- No template of the model refers to the name of a key. -/
def Model.KeepsKeysApart (model : Model) : Prop := ∀ name ∈ model.references, name ∉ model.physicalNames

instance (model : Model) : Decidable model.KeepsKeysApart := List.decidableBAll _ _

/-- If templates do not refer to keys, they see the attributes of an item as they were before its keys were
added. -/
theorem agreeOn_written {model : Model} (hapart : model.KeepsKeysApart) {attributes : Dict Value}
    {keys : Dict String} (hkeys : model.resolveItemKeys attributes = .ok keys) :
    AgreeOn model.references (attributes.extend (keyItem keys)) attributes := by
  intro name hname
  rw [Dict.get?_extend, keyItem, Dict.get?_map, get?_resolveItemKeys_of_not_mem (hapart name hname) hkeys]
  rfl

/-- If the keys of an item can be resolved, so can its primary key. -/
theorem exists_primaryKey {model : Model} {attributes : Dict Value} {keys : Dict String}
    (h : model.resolveItemKeys attributes = .ok keys) : ∃ key, model.primaryKey attributes = .ok key := by
  rw [Model.resolveItemKeys, bind_eq_ok_iff] at h
  obtain ⟨primary, hprimary, -⟩ := h
  exact ⟨keyItem primary, by rw [Model.primaryKey, hprimary]; rfl⟩

/-- **Writing back is stable.** Let no template of a model refer to the name of a key. If a put can be built, the
same put of the item that it writes gives the same request, and any other put of this item can be built and
writes the same item. A get, an update and a delete of the attributes can be built, and of the item that was
written they give the same requests, with the same keys. -/
theorem writing_back_is_stable {model : Model} (hapart : model.KeepsKeysApart) {put : Put}
    (hmodel : put.model = model) {request : PutRequest} (hbuild : put.build = .ok request) :
    { put with item := request.item }.build = .ok request ∧
    (∀ again : Put, again.model = model → again.item = request.item →
      ∃ rewritten, again.build = .ok rewritten ∧ rewritten.item = request.item) ∧
    (∀ get : Get, get.model = model → get.attributes = put.item →
      ∃ read, get.build = .ok read ∧ { get with attributes := request.item }.build = .ok read) ∧
    (∀ update : Update, update.model = model → update.attributes = put.item →
      ∃ change, update.build = .ok change ∧ { update with attributes := request.item }.build = .ok change) ∧
    (∀ delete : Delete, delete.model = model → delete.attributes = put.item →
      ∃ deletion, delete.build = .ok deletion ∧
        { delete with attributes := request.item }.build = .ok deletion) := by
  rw [Put.build, hmodel, bind_eq_ok_iff] at hbuild
  obtain ⟨keys, hkeys, hbuild⟩ := hbuild
  cases hbuild
  have hagree := agreeOn_written hapart hkeys
  -- The written item has the keys that it was written with.
  have hagain : model.resolveItemKeys (put.item.extend (keyItem keys)) = .ok keys := by
    rw [Model.resolveItemKeys_congr hagree, hkeys]
  obtain ⟨key, hkey⟩ := exists_primaryKey hkeys
  have hsame : model.primaryKey (put.item.extend (keyItem keys)) = .ok key := by
    rw [Model.primaryKey_congr hagree, hkey]
  refine ⟨?_, ?_, ?_, ?_, ?_⟩
  · refine bind_eq_ok_iff.2 ⟨keys, by rw [hmodel, hagain], ?_⟩
    rw [Dict.extend_extend_self, hmodel]
  · intro again hmodel' hitem
    rw [Put.build, hmodel', hitem, hagain]
    exact ⟨_, rfl, Dict.extend_extend_self _ _⟩
  · intro get hget hattributes
    rw [Get.build, Get.build, hattributes, hget, hkey, hsame]
    exact ⟨_, rfl, rfl⟩
  · intro update hupdate hattributes
    rw [Update.build, Update.build, hattributes, hupdate, hkey, hsame]
    exact ⟨_, rfl, rfl⟩
  · intro delete hdelete hattributes
    rw [Delete.build, Delete.build, hattributes, hdelete, hkey, hsame]
    exact ⟨_, rfl, rfl⟩

/-- A template that refers to a key sees what the first put has written there. -/
example :
    let model : Model := { name := "Page", table := "app", key := [⟨"PK", "PAGE#${PK}"⟩] }
    let first := Put.build ⟨model, .ofList [("PK", .string "7")], {}, none⟩
    (first.toOption.map (·.item), (first.bind fun request =>
        Put.build ⟨model, request.item, {}, none⟩).toOption.map (·.item)) =
      (some (.ofList [("PK", .string "PAGE#7")]), some (.ofList [("PK", .string "PAGE#PAGE#7")])) := by
  decide +kernel

/-! ### Parcels on their way -/

/-- Parcels with two indexes that share a key, by courier and by shelf. -/
def parcels : Model where
  name := "Parcel"
  table := "app"
  key := [⟨"PK", "PARCEL#${id}"⟩]
  indexes := [⟨"byCourier", [⟨"GPK", "COURIER#${courier}"⟩, ⟨"GSK", "${id}"⟩]⟩,
    ⟨"byShelf", [⟨"GPK", "SHELF#${shelf}"⟩, ⟨"SSK", "${place}"⟩]⟩]

/-- A parcel that has a courier and no place on its shelf yet, with an outdated key. -/
def parcel : Put where
  model := parcels
  item := .ofList [("id", .number "7"), ("courier", .string "ann"), ("shelf", .string "B"),
    ("GPK", .string "COURIER#bob")]

/-- The index by shelf is left out when the parcel is put and when it is put again. -/
theorem writing_back_is_stable_parcels :
    parcels.KeepsKeysApart ∧
    ∃ request, parcel.build = .ok request ∧
      request.item = .ofList [("id", .number "7"), ("courier", .string "ann"), ("shelf", .string "B"),
        ("PK", .string "PARCEL#7"), ("GPK", .string "COURIER#ann"), ("GSK", .string "7")] ∧
      Put.build ⟨parcels, request.item, {}, none⟩ = .ok request ∧
      ∃ read, Get.build ⟨parcels, parcel.item, [], none⟩ = .ok read ∧
        Get.build ⟨parcels, request.item, [], none⟩ = .ok read := by
  have hapart : parcels.KeepsKeysApart := by decide +kernel
  have hbuild : parcel.build.toOption.map (·.item) =
      some (.ofList [("id", .number "7"), ("courier", .string "ann"), ("shelf", .string "B"),
        ("PK", .string "PARCEL#7"), ("GPK", .string "COURIER#ann"), ("GSK", .string "7")]) := by
    decide +kernel
  obtain ⟨request, hbuild, hitem⟩ := exists_ok_of_map_toOption hbuild
  obtain ⟨hput, -, hget, -, -⟩ := writing_back_is_stable hapart rfl hbuild
  exact ⟨hapart, request, hbuild, hitem, hput, hget _ rfl rfl⟩

end SingleTable
