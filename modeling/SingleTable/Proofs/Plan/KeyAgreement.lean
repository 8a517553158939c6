import SingleTable.Proofs.Condition.Built
import SingleTable.Proofs.Condition.Minting
import SingleTable.Proofs.Model.Keys
import SingleTable.Proofs.Plan.Routing
import SingleTable.Proofs.Template.Filling
import SingleTable.Condition.Test
import SingleTable.Request.Item

/-!
# Equalities look where items are stored

A query by equality looks for the key that a write computes. The two keys come from different places: the
planner completes a template with the equalities of the conjunction, a write resolves it from the attributes
of the item. For every item with the attributes that the equalities ask for, both give the same text
(`pushed_equality_key`), however many references the template has and in whatever order the equalities
stand.
-/

set_option autoImplicit false

namespace SingleTable

/-- The leaves that tests on top-level attributes make. -/
def Leaf.IsTopLevel (leaf : Leaf) : Prop :=
  ∃ test : Test, ∃ next, test.target.path = none ∧ leaf = test.leaf next

/-- The equality of a top-level attribute with a value, as the condition that its test makes. -/
def equality (name : String) (value : Value) (next : Nat) : Condition :=
  .leaf ((Test.compare .eq ⟨name, none⟩ value).leaf next)

/-- Attributes that satisfy all equalities of a conjunction. -/
def SatisfiesEqualities (conjuncts : List Condition) (attributes : Dict Value) : Prop :=
  ∀ name value next, equality name value next ∈ conjuncts → attributes.get? name = some value

/-- The planners for the key schemas of a model, which are its primary key and each of its indexes, with the
key definitions of the schema. The policy is free. -/
inductive Planner.For (model : Model) : Planner → List KeyDefinition → Prop
  | primary (policy : SharedKeyPolicy) : For model { ofModel model with policy } model.key
  | index {name : String} {planner : Planner} {found : IndexDefinition} (policy : SharedKeyPolicy)
      (hplanner : ofIndex model name = .ok planner) (hfound : model.index? name = some found) :
      For model { planner with policy } found.key

/-! ## Leaves of top-level tests -/

/-- A leaf that tests an attribute names it in its name map. -/
theorem exists_of_attribute? {leaf : Leaf} {name : String} (h : leaf.attribute? = some name) :
    ∃ token, leaf.names.get? token = some name := by
  rw [Leaf.attribute?] at h
  split at h
  · exact ⟨_, h⟩
  · cases h

/-- The attribute of a leaf that tests a top-level attribute is no other one. -/
theorem attribute?_leaf {test : Test} {next : Nat} {name : String} (hpath : test.target.path = none)
    (h : (test.leaf next).attribute? = some name) : name = test.target.name := by
  obtain ⟨token, htoken⟩ := exists_of_attribute? h
  have hoperand : test.target.operand.names = [(nameToken test.target.name, test.target.name)] := by
    rw [Handle.operand, hpath]
  rw [Test.leaf] at htoken
  split at htoken
  · cases htoken
  · dsimp only at htoken
    rw [hoperand, Dict.get?_ofList] at htoken
    obtain ⟨rfl, rfl⟩ := Prod.mk.inj (List.mem_singleton.1 (mem_of_findEntry htoken))
    rfl

/-- An equality that is not negated binds one placeholder to its value. -/
theorem values_equality (target : Handle) (value : Value) (next : Nat) :
    ((Test.compare .eq target value).leaf next).values =
      .singleton (valuePlaceholder target.name "" next) value := rfl

/-- A leaf of a conjunction that tests an attribute for equality is the test of an equality. -/
theorem eq_equality_of_leaf {leaf : Leaf} {name : String} (htop : leaf.IsTopLevel)
    (hkind : leaf.kind = .compare .eq) (hname : leaf.attribute? = some name) :
    ∃ value next, leaf = (Test.compare .eq ⟨name, none⟩ value).leaf next := by
  obtain ⟨test, next, hpath, rfl⟩ := htop
  have htarget := attribute?_leaf hpath hname
  rw [leaf_kind] at hkind
  cases test with
  | compare comparison target value =>
    cases hkind
    obtain ⟨targetName, path⟩ := target
    cases hpath
    cases htarget
    exact ⟨value, next, rfl⟩
  | between target low high => cases hkind
  | beginsWith target start => cases hkind
  | contains target part => cases hkind
  | present target => cases hkind
  | absent target => cases hkind
  | hasType target kind => cases hkind
  | oneOf target values => cases hkind
  | size comparison target bound => cases hkind

/-! ## Agreement of the two keys -/

section Agreement

variable {conjuncts : List Condition} {attributes : Dict Value}

/-- What a conjunction pins an attribute to is the attribute of every item that satisfies its equalities. -/
theorem get?_of_pinned? (htop : ∀ leaf, .leaf leaf ∈ conjuncts → leaf.negated = false → leaf.IsTopLevel)
    (hattributes : SatisfiesEqualities conjuncts attributes) {name : String} {value : Value}
    (h : pinned? conjuncts name = some value) : attributes.get? name = some value := by
  obtain ⟨conjunct, hmem, hvalue⟩ := List.exists_of_findSome?_eq_some h
  cases conjunct with
  | group joiner children negated => cases hvalue
  | leaf leaf =>
    rw [Condition.valueOf?] at hvalue
    split at hvalue
    · rename_i hequal
      obtain ⟨hpositive, hkind, hname⟩ := hequal
      obtain ⟨stated, next, rfl⟩ := eq_equality_of_leaf (htop leaf hmem hpositive) hkind hname
      have hstated := hattributes name stated next hmem
      have heq : stated = value := by
        rw [values_equality] at hvalue
        exact Option.some.inj hvalue
      rw [hstated, heq]
    · cases hvalue

/-- A template that the equalities of a conjunction complete gives the same key for every item that
satisfies them. -/
theorem resolve_attributes
    (htop : ∀ leaf, .leaf leaf ∈ conjuncts → leaf.negated = false → leaf.IsTopLevel)
    (hattributes : SatisfiesEqualities conjuncts attributes) {template : Template} {name key : String}
    {value : Value} (hvalue : attributes.get? name = some value)
    (h : template.resolve (completed? conjuncts name value) = .ok key) :
    template.resolve attributes.get? = .ok key := by
  rw [← h]
  -- A template that resolves has a value for each reference: the tested one, or a pinned one.
  apply Template.resolve_congr
  intro other hother
  obtain ⟨found, hfound⟩ := Template.isSome_of_resolve h hother
  rw [hfound]
  rw [completed?] at hfound
  split at hfound
  · rename_i heq
    rw [heq, hvalue, hfound]
  · exact get?_of_pinned? htop hattributes hfound

end Agreement

/-- A dictionary whose only name is known has the entry of this name only. -/
theorem eq_singleton {α : Type} {dict : Dict α} {name : String} {value : α} (hnames : dict.names = [name])
    (hvalue : dict.get? name = some value) : dict = .singleton name value := by
  apply Dict.ext_get?
  intro other
  rw [Dict.get?_singleton]
  split
  · rename_i heq
    rw [heq, hvalue]
  · rename_i hne
    cases hother : dict.get? other with
    | none => rfl
    | some found =>
      have hmem : other ∈ dict.names := Dict.mem_names_iff.2 ⟨found, hother⟩
      rw [hnames, List.mem_singleton] at hmem
      exact absurd hmem hne

/-- A leaf of a built conjunction that is not negated is one of the leaves that it is built of. -/
theorem isTopLevel_of_conjunct {condition : Condition} {conjuncts : List Condition}
    (hbuilt : condition.Built Leaf.IsTopLevel) (hgroup : condition.conjunction? = some conjuncts)
    (leaf : Leaf) (hleaf : .leaf leaf ∈ conjuncts) (hpositive : leaf.negated = false) :
    leaf.IsTopLevel := by
  obtain ⟨origin, horigin, heq⟩ :=
    hbuilt.origin (mem_leaves_of_conjunct hgroup hleaf (List.mem_singleton_self leaf))
  obtain ⟨test, next, hpath, rfl⟩ := horigin
  refine ⟨test, next, hpath, ?_⟩
  rw [heq, hpositive, ← leaf_negated test next]

/-- The slots of a planner are the definitions of its schema. -/
theorem slots_of_for {model : Model} {planner : Planner} {schema : List KeyDefinition}
    (h : Planner.For model planner schema) : planner.slots = schema.map .ofDefinition := by
  cases h with
  | primary policy => rfl
  | index policy hplanner hfound =>
    rw [Planner.ofIndex, hfound] at hplanner
    cases hplanner
    rfl

/-- A key of the schema of a planner is a key of the model. -/
theorem mem_keys_of_for {model : Model} {planner : Planner} {schema : List KeyDefinition}
    (h : Planner.For model planner schema) {definition : KeyDefinition} (hmem : definition ∈ schema) :
    definition ∈ model.key ++ model.indexKeys := by
  cases h with
  | primary policy => exact List.mem_append_left _ hmem
  | index policy hplanner hfound =>
    exact List.mem_append_right _ (List.mem_flatMap.2 ⟨_, (Model.of_index? hfound).1, hmem⟩)

/-- A put writes the key of every definition of a schema that holds the item. -/
theorem get?_put {model : Model} {planner : Planner} {schema : List KeyDefinition}
    (h : Planner.For model planner schema) (hnodup : model.physicalNames.Nodup)
    {definition : KeyDefinition} (hmem : definition ∈ schema) {put : Put} {request : PutRequest}
    (hmodel : put.model = model) {key : String} (hkey : definition.resolve put.item = .ok key)
    (hbuild : put.build = .ok request)
    (hholds : schema = model.key ∨ ∃ keys, resolveOnto put.item .empty schema = .ok keys) :
    request.item.get? definition.name = some (.string key) := by
  have honly := Model.onlyOneIn hnodup (mem_keys_of_for h hmem)
  have hin : definition ∈ model.key ∨ model.Holds put.item definition model.indexes := by
    rcases hholds with rfl | hholds
    · exact Or.inl hmem
    · cases h with
      | primary policy => exact Or.inl hmem
      | @index name _ found policy hplanner hfound =>
        obtain ⟨hindex, hname⟩ := Model.of_index? hfound
        refine Or.inr ⟨found, hindex, found, ?_, hmem, hholds⟩
        rw [hname, hfound]
  rw [Put.build, hmodel, bind_eq_ok_iff] at hbuild
  obtain ⟨keys, hkeys, hbuild⟩ := hbuild
  cases hbuild
  rw [Dict.get?_extend, keyItem, Dict.get?_map, get?_resolveItemKeys hkey honly hkeys hin,
    Option.map_some, Option.some_or]

/-- A get reads the key of every definition of the primary key. -/
theorem get?_get {model : Model} (hnodup : model.physicalNames.Nodup) {definition : KeyDefinition}
    (hmem : definition ∈ model.key) {get : Get} {request : GetRequest} (hmodel : get.model = model)
    {key : String} (hkey : definition.resolve get.attributes = .ok key)
    (hbuild : get.build = .ok request) : request.key.get? definition.name = some (.string key) := by
  have honly := Model.onlyOneIn hnodup (List.mem_append_left _ hmem)
  rw [Get.build, hmodel, bind_eq_ok_iff] at hbuild
  obtain ⟨item, hitem, hbuild⟩ := hbuild
  cases hbuild
  rw [Model.primaryKey, Model.resolveKeys, Model.selected] at hitem
  cases hkeys : resolveOnto get.attributes .empty model.key with
  | error failure =>
    rw [hkeys] at hitem
    cases hitem
  | ok keys =>
    rw [hkeys] at hitem
    cases hitem
    have hget := get?_resolveOnto hkey
      (fun other hother => honly other (List.mem_append_left _ hother)) hkeys
    rw [keyItem, Dict.get?_map, hget, if_pos hmem, Option.map_some]

/-- **An equality is looked for where items are stored.** Take a plan of a conjunction of tests on top-level
attributes, against any key schema of a model and under any policy, and attributes that satisfy the
equalities of the conjunction. Each key condition that is an equality comes from an equality of the
conjunction and addresses the first key whose template refers to its attribute; its placeholder stands for
the key that the attributes resolve to. So, if the names of the physical keys are different from each other,
it is the key of the item that a put of these attributes writes in the schema, and of the one that a get of
these attributes reads. -/
theorem pushed_equality_key {model : Model} {planner : Planner} {schema : List KeyDefinition}
    (hplanner : Planner.For model planner schema) {condition : Condition} {conjuncts : List Condition}
    (hgroup : condition.conjunction? = some conjuncts) (hbuilt : condition.Built Leaf.IsTopLevel)
    {plan : Plan} {warnings : List Warning} (hplan : planner.plan condition = .ok (plan, warnings))
    {attributes : Dict Value} (hattributes : SatisfiesEqualities conjuncts attributes)
    {pushed : Leaf} (hpushed : .leaf pushed ∈ plan.keyConditions) (hkind : pushed.kind = .compare .eq) :
    ∃ name value next definition key, equality name value next ∈ conjuncts ∧
      schema.find? (fun other => (Template.parse other.template).refersTo name) = some definition ∧
      pushed.names = .singleton (nameToken definition.name) definition.name ∧
      pushed.values = .singleton (valuePlaceholder name "" next) (.string key) ∧
      definition.resolve attributes = .ok key ∧
      (model.physicalNames.Nodup →
        (∀ (put : Put) request, put.model = model → put.item = attributes → put.build = .ok request →
          schema = model.key ∨ (∃ keys, resolveOnto attributes .empty schema = .ok keys) →
            request.item.get? definition.name = some (.string key)) ∧
        ∀ (get : Get) request, get.model = model → get.attributes = attributes → get.build = .ok request →
          schema = model.key → request.key.get? definition.name = some (.string key)) := by
  have htop := isTopLevel_of_conjunct hbuilt hgroup
  rw [Planner.plan_of_conjunction _ hgroup] at hplan
  obtain ⟨conjunct, hconjunct, leaf, name, slot, rewritten, rfl, hgoes, heq, hrewritten⟩ :=
    exists_left_of_mem (Planner.planAll_ok hplan).2 hpushed
  cases heq
  have hmem : .leaf leaf ∈ conjuncts := List.mem_of_mem_filter hconjunct
  -- The leaf is an equality of the conjunction.
  obtain ⟨value, next, rfl⟩ := eq_equality_of_leaf (htop leaf hmem hgoes.positive)
    (hrewritten.kind.symm.trans hkind) hgoes.tested
  -- Its slot is the first definition that refers to its attribute.
  have hfirst := hgoes.first
  rw [slots_of_for hplanner, List.find?_map, Option.map_eq_some_iff] at hfirst
  obtain ⟨definition, hdefinition, rfl⟩ := hfirst
  -- Its placeholder stands for what the template gives from the equalities of the conjunction.
  have hvalue : ((Test.compare .eq ⟨name, none⟩ value).leaf next).values.get?
      (valuePlaceholder name "" next) = some value := by
    rw [values_equality, Dict.get?_singleton, if_pos rfl]
  obtain ⟨key, hkey, hbound⟩ := hrewritten.values _ _ hvalue
  have hresolve : definition.resolve attributes = .ok key :=
    resolve_attributes htop hattributes (hattributes name value next hmem) hkey
  refine ⟨name, value, next, definition, key, hmem, hdefinition, hrewritten.names,
    eq_singleton hrewritten.placeholders hbound, hresolve, fun hnodup => ?_⟩
  have hschema : definition ∈ schema := List.mem_of_find?_eq_some hdefinition
  constructor
  · rintro put request hmodel rfl hbuild hholds
    exact get?_put hplanner hnodup hschema hmodel hresolve hbuild hholds
  · rintro get request hmodel rfl hbuild rfl
    exact get?_get hnodup hschema hmodel hresolve hbuild

/-- Equalities with the same leaf have the same attribute and the same value. -/
theorem equality_inj {name name' : String} {value value' : Value} {next next' : Nat}
    (h : equality name value next = equality name' value' next') : name = name' ∧ value = value' := by
  have hleaf := Condition.leaf.inj h
  have hnames := congrArg (fun leaf => leaf.names.values) hleaf
  have hvalues := congrArg (fun leaf => leaf.values.values) hleaf
  exact ⟨(List.cons.inj hnames).1, (List.cons.inj hvalues).1⟩

/-- Photos of users in order of time, and an index by place. -/
def photos : Model where
  name := "Photo"
  table := "app"
  key := [⟨"PK", "USER#${user}"⟩, ⟨"SK", "PHOTO#${user}#${time}"⟩]
  indexes := [⟨"byPlace", [⟨"GPK", "PLACE#${place}"⟩, ⟨"GSK", "${time}#${user}"⟩]⟩]

/-- The photo of a user at a time, with a tag. -/
def photoCondition : Condition :=
  .all [equality "time" (.number "7") 0, equality "user" (.string "ann") 1,
    .leaf ((Test.contains ⟨"tags", none⟩ (.string "sea")).leaf 2)]

/-- Attributes of such a photo. -/
def photoAttributes : Dict Value :=
  .ofList [("user", .string "ann"), ("time", .number "7"), ("tags", .stringSet ["sea"])]

/-- The key condition of the time in the plan of such a photo. -/
def photoKey : Leaf where
  text := "#SK = :time_0"
  names := .singleton "#SK" "SK"
  values := .singleton ":time_0" (.string "PHOTO#ann#7")
  negated := false
  kind := .compare .eq

theorem photoAttributes_satisfy : SatisfiesEqualities
    [equality "time" (.number "7") 0, equality "user" (.string "ann") 1,
      .leaf ((Test.contains ⟨"tags", none⟩ (.string "sea")).leaf 2)] photoAttributes := by
  intro name value next h
  rcases List.mem_cons.1 h with heq | h
  · obtain ⟨rfl, rfl⟩ := equality_inj heq
    decide
  · rcases List.mem_cons.1 h with heq | h
    · obtain ⟨rfl, rfl⟩ := equality_inj heq
      decide
    · have hkind := congrArg Leaf.kind (Condition.leaf.inj (List.mem_singleton.1 h))
      rw [leaf_kind, leaf_kind] at hkind
      cases hkind

/-- The conjuncts of the condition are tests on top-level attributes. -/
theorem photoCondition_built : photoCondition.Built Leaf.IsTopLevel := by
  refine .all fun conjunct hconjunct => ?_
  simp only [List.mem_cons, List.not_mem_nil, or_false] at hconjunct
  obtain rfl | rfl | rfl := hconjunct
  · exact .leaf ⟨_, 0, rfl, rfl⟩
  · exact .leaf ⟨_, 1, rfl, rfl⟩
  · exact .leaf ⟨_, 2, rfl, rfl⟩

/-- The equalities of a photo are looked for under the keys that a put of the photo writes. -/
theorem pushed_equality_key_photos :
    ∃ plan : Plan, (Planner.ofModel photos).plan photoCondition = .ok (plan, []) ∧
      ∃ (name : String) (value : Value) (next : Nat) (definition : KeyDefinition) (key : String),
        equality name value next ∈ [equality "time" (.number "7") 0, equality "user" (.string "ann") 1,
          .leaf ((Test.contains ⟨"tags", none⟩ (.string "sea")).leaf 2)] ∧
        photoKey.names = .singleton (nameToken definition.name) definition.name ∧
        photoKey.values = .singleton (valuePlaceholder name "" next) (.string key) ∧
        definition.resolve photoAttributes = .ok key ∧
        ∀ request, Put.build ⟨photos, photoAttributes, {}, none⟩ = .ok request →
          request.item.get? definition.name = some (.string key) := by
  have hplan : (Planner.ofModel photos).plan photoCondition =
      .ok (⟨[.leaf photoKey, .leaf { photoKey with
          text := "#PK = :user_1"
          names := .singleton "#PK" "PK"
          values := .singleton ":user_1" (.string "USER#ann") }],
        [.leaf ((Test.contains ⟨"tags", none⟩ (.string "sea")).leaf 2)]⟩, []) := by
    exact eq_ok_of_toOption (by decide +kernel)
  have hplanner : Planner.For photos (.ofModel photos) photos.key := .primary .warn
  obtain ⟨name, value, next, definition, key, hmem, -, hnames, hvalues, hkey, hstored⟩ :=
    pushed_equality_key hplanner rfl photoCondition_built hplan photoAttributes_satisfy
      (List.mem_cons_self (a := Condition.leaf photoKey)) rfl
  refine ⟨_, hplan, name, value, next, definition, key, hmem, hnames, hvalues, hkey, fun request => ?_⟩
  exact fun hbuild => (hstored (by decide)).1 _ request rfl rfl hbuild (Or.inl rfl)

end SingleTable
