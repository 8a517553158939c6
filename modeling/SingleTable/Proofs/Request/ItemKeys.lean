import SingleTable.Proofs.Model.Keys
import SingleTable.Proofs.Model.Resolution
import SingleTable.Request.Item

/-!
# Where an item is stored

A put resolves the keys of an item in another way than the requests that address it: it adds the keys of each
index that holds the item to the primary key, and writes all of them over the attributes. If no index gives
another template to a name of the primary key, the item is still stored under the key that a get, an update
and a delete resolve from the same attributes, and it holds its attributes and keys and nothing else
(`put_is_found`).
-/

set_option autoImplicit false

namespace SingleTable

/-! ## Restricted dictionaries -/

section Restriction

variable {α : Type}

/-- The entries of a dictionary under the given names. -/
def Dict.restrict (dict : Dict α) (names : List String) : Dict α :=
  ⟨dict.entries.filter fun entry => names.contains entry.1, dict.increasing.filter _⟩

theorem Dict.get?_restrict (dict : Dict α) (names : List String) (name : String) :
    (dict.restrict names).get? name = if name ∈ names then dict.get? name else none := by
  apply Option.ext
  intro value
  rw [← Dict.mem_entries_iff, Dict.restrict, List.mem_filter, List.contains_iff_mem,
    Dict.mem_entries_iff]
  by_cases h : name ∈ names
  · simp [h]
  · simp [h]

end Restriction

/-! ## Names without a key -/

section Names

variable {model : Model} {attributes : Dict Value} {name : String}

/-- Resolved definitions change nothing under a name that none of them has. -/
theorem get?_resolveOnto_of_not_mem {definitions : List KeyDefinition}
    (hname : name ∉ definitions.map (·.name)) {keys result : Dict String}
    (h : resolveOnto attributes keys definitions = .ok result) : result.get? name = keys.get? name := by
  induction definitions generalizing keys with
  | nil =>
    cases h
    rfl
  | cons first rest ih =>
    rw [List.map_cons, List.mem_cons, not_or] at hname
    rw [resolveOnto, bind_eq_ok_iff] at h
    obtain ⟨text, -, h⟩ := h
    rw [ih hname.2 h, Dict.get?_insert, if_neg hname.1]

/-- Adding the keys of indexes changes nothing under a name that no index has. -/
theorem get?_addIndexKeys_of_not_mem (hname : name ∉ model.indexKeys.map (·.name))
    {indexes : List IndexDefinition} {keys result : Dict String}
    (h : model.addIndexKeys attributes keys indexes = .ok result) : result.get? name = keys.get? name := by
  induction indexes generalizing keys with
  | nil =>
    cases h
    rfl
  | cons index rest ih =>
    rw [Model.addIndexKeys_cons, bind_eq_ok_iff] at h
    obtain ⟨part, hpart, hrest⟩ := h
    have hnone : part.get? name = none := by
      rcases Model.indexPart_eq_ok_iff.1 hpart with hmore | ⟨rfl, -⟩
      · obtain ⟨found, hfound, hmore⟩ := Model.resolveIndexKeys_eq_ok_iff.1 hmore
        have hindex : name ∉ found.key.map (·.name) := fun hmem => by
          obtain ⟨definition, hdefinition, rfl⟩ := List.mem_map.1 hmem
          exact hname (List.mem_map_of_mem (f := KeyDefinition.name)
            (List.mem_flatMap.2 ⟨found, (Model.of_index? hfound).1, hdefinition⟩))
        rw [get?_resolveOnto_of_not_mem hindex hmore, Dict.get?_empty]
      · rfl
    rw [ih hrest, Dict.get?_extend, hnone, Option.none_or]

/-- The keys of an item have physical names only. -/
theorem get?_resolveItemKeys_of_not_mem (hname : name ∉ model.physicalNames) {keys : Dict String}
    (h : model.resolveItemKeys attributes = .ok keys) : keys.get? name = none := by
  rw [Model.physicalNames, List.map_append, List.mem_append, not_or] at hname
  rw [Model.resolveItemKeys, bind_eq_ok_iff] at h
  obtain ⟨primary, hprimary, h⟩ := h
  rw [get?_addIndexKeys_of_not_mem hname.2 h, get?_resolveOnto_of_not_mem hname.1 hprimary,
    Dict.get?_empty]

end Names

/-! ## The primary key -/

section Primary

variable {model : Model} {attributes : Dict Value}

/-- The names of the primary key. -/
def Model.primaryNames (model : Model) : List String := model.key.map (·.name)

/-- The templates of a model agree on the primary key: its names are different, and an index that declares
one of them gives it the same template. -/
structure Model.AgreesOnPrimary (model : Model) : Prop where
  /-- The names of the primary key are different from each other. -/
  distinct : model.primaryNames.Nodup
  /-- An index gives no other template to a name of the primary key. -/
  redeclared : ∀ definition ∈ model.key, ∀ other ∈ model.indexKeys,
    other.name = definition.name → other.template = definition.template

/-- No definition but the one of the primary key itself writes under its name. -/
theorem Model.AgreesOnPrimary.onlyOneIn (h : model.AgreesOnPrimary) {definition : KeyDefinition}
    (hmem : definition ∈ model.key) : definition.OnlyOneIn (model.key ++ model.indexKeys) := by
  intro other hother hname
  rcases List.mem_append.1 hother with hother | hother
  · exact List.inj_on_of_nodup_map h.distinct hother hmem hname
  · have htemplate := h.redeclared definition hmem other hother hname
    cases other
    cases definition
    cases hname
    cases htemplate
    rfl

/-- If the keys of an item can be resolved, so can its primary key, which is what stands under the names of
the primary key in the item with all its keys. -/
theorem primaryKey_of_resolveItemKeys (hagree : model.AgreesOnPrimary) {keys : Dict String}
    (h : model.resolveItemKeys attributes = .ok keys) :
    model.primaryKey attributes =
      .ok ((attributes.extend (keyItem keys)).restrict model.primaryNames) := by
  have hitem := h
  rw [Model.resolveItemKeys, bind_eq_ok_iff] at h
  obtain ⟨primary, hprimary, -⟩ := h
  have hkey : keyItem primary = (attributes.extend (keyItem keys)).restrict model.primaryNames := by
    apply Dict.ext_get?
    intro name
    rw [keyItem, Dict.get?_map, Dict.get?_restrict, Dict.get?_extend, keyItem, Dict.get?_map]
    by_cases hname : name ∈ model.primaryNames
    · rw [if_pos hname]
      obtain ⟨definition, hmem, rfl⟩ := List.mem_map.1 hname
      obtain ⟨key, hdefinition⟩ := exists_resolveOnto_iff.1 ⟨primary, hprimary⟩ definition hmem
      have honly := hagree.onlyOneIn hmem
      -- Both dictionaries hold the key of the one definition that writes under the name.
      have hleft : primary.get? definition.name = some key := by
        rw [get?_resolveOnto hdefinition
          (fun other hother => honly other (List.mem_append_left _ hother)) hprimary]
        exact if_pos hmem
      have hright := get?_resolveItemKeys hdefinition honly hitem (Or.inl hmem)
      rw [hleft, hright, Option.map_some, Option.some_or]
    · rw [if_neg hname, get?_resolveOnto_of_not_mem hname hprimary]
      rfl
  rw [Model.primaryKey, hprimary, ← hkey]
  rfl

end Primary

/-! ## Requests -/

/-- **A put is found again.** If a put can be built, a get, an update and a delete of the same attributes can be
built too, and they address the table and the key under which the item is written. Every attribute whose
name is no key is written as it is, and nothing is written besides the attributes and the keys. -/
theorem put_is_found {model : Model} (hagree : model.AgreesOnPrimary) {put : Put}
    (hmodel : put.model = model) {request : PutRequest} (hbuild : put.build = .ok request) :
    (∀ get : Get, get.model = model → get.attributes = put.item →
      ∃ read, get.build = .ok read ∧ read.tableName = request.tableName ∧
        read.key = request.item.restrict model.primaryNames) ∧
    (∀ update : Update, update.model = model → update.attributes = put.item →
      ∃ change, update.build = .ok change ∧ change.tableName = request.tableName ∧
        change.key = request.item.restrict model.primaryNames) ∧
    (∀ delete : Delete, delete.model = model → delete.attributes = put.item →
      ∃ deletion, delete.build = .ok deletion ∧ deletion.tableName = request.tableName ∧
        deletion.key = request.item.restrict model.primaryNames) ∧
    (∀ name value, put.item.get? name = some value → name ∉ model.physicalNames →
      request.item.get? name = some value) ∧
    (∀ name value, request.item.get? name = some value →
      (∃ given, put.item.get? name = some given) ∨ name ∈ model.physicalNames) := by
  rw [Put.build, hmodel, bind_eq_ok_iff] at hbuild
  obtain ⟨keys, hkeys, hbuild⟩ := hbuild
  cases hbuild
  have hprimary := primaryKey_of_resolveItemKeys hagree hkeys
  have hother : ∀ name, name ∉ model.physicalNames →
      (put.item.extend (keyItem keys)).get? name = put.item.get? name := by
    intro name hname
    rw [Dict.get?_extend, keyItem, Dict.get?_map, get?_resolveItemKeys_of_not_mem hname hkeys]
    rfl
  refine ⟨?_, ?_, ?_, ?_, ?_⟩
  · intro get hget hattributes
    rw [Get.build, hget, hattributes, hprimary]
    exact ⟨_, rfl, rfl, rfl⟩
  · intro update hupdate hattributes
    rw [Update.build, hupdate, hattributes, hprimary]
    exact ⟨_, rfl, rfl, rfl⟩
  · intro delete hdelete hattributes
    rw [Delete.build, hdelete, hattributes, hprimary]
    exact ⟨_, rfl, rfl, rfl⟩
  · intro name value hvalue hname
    rw [hother name hname, hvalue]
  · intro name value hvalue
    by_cases hname : name ∈ model.physicalNames
    · exact Or.inr hname
    · rw [hother name hname] at hvalue
      exact Or.inl ⟨value, hvalue⟩

/-! ### Orders of customers -/

/-- Orders of customers, with an index that shares a key with the table, and one for orders with a
voucher. -/
def orders : Model where
  name := "Order"
  table := "app"
  key := [⟨"PK", "CUSTOMER#${customer}"⟩, ⟨"SK", "ORDER#${number}"⟩]
  indexes := [⟨"byTotal", [⟨"PK", "CUSTOMER#${customer}"⟩, ⟨"LSK", "${total}"⟩]⟩,
    ⟨"byVoucher", [⟨"GPK", "VOUCHER#${voucher}"⟩]⟩]

/-- An order without a voucher, with an attribute that has the name of a key. -/
def order : Put where
  model := orders
  item := .ofList [("customer", .string "ann"), ("number", .number "7"), ("total", .number "30"),
    ("PK", .string "first"), ("note", .string "ring twice")]

theorem put_is_found_orders :
    orders.AgreesOnPrimary ∧
    ∃ request, order.build = .ok request ∧
      (∃ read, Get.build ⟨orders, order.item, [], none⟩ = .ok read ∧ read.tableName = request.tableName ∧
        read.key = request.item.restrict orders.primaryNames) ∧
      request.item.restrict orders.primaryNames =
        .ofList [("PK", .string "CUSTOMER#ann"), ("SK", .string "ORDER#7")] ∧
      request.item.get? "note" = some (.string "ring twice") ∧
      request.item.get? "GPK" = none := by
  have hagree : orders.AgreesOnPrimary := ⟨by decide, by decide⟩
  have hbuild : order.build.toOption.map (·.item) =
      some (.ofList [("customer", .string "ann"), ("number", .number "7"), ("total", .number "30"),
        ("PK", .string "CUSTOMER#ann"), ("SK", .string "ORDER#7"), ("LSK", .string "30"),
        ("note", .string "ring twice")]) := by decide +kernel
  obtain ⟨request, hbuild, hitem⟩ := exists_ok_of_map_toOption hbuild
  obtain ⟨hget, -, -, hkept, -⟩ := put_is_found hagree rfl hbuild
  refine ⟨hagree, request, hbuild, hget _ rfl rfl, ?_, ?_, ?_⟩
  · rw [hitem]
    decide
  · exact hkept "note" _ (by decide) (by decide)
  · rw [hitem]
    decide

end SingleTable
