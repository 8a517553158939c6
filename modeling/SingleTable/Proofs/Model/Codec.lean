import Mathlib.Data.List.Duplicate
import Mathlib.Tactic.SplitIfs
import SingleTable.Failure
import SingleTable.Model.Codec
import SingleTable.Proofs.Json.Documents

/-!
# Models are read as they were written

The text of a model is read as the very model, in the order of its declarations, exactly if no list of
definitions has a name twice; else the rejection names one that repeats (`models_round_trip`). What a reader
makes of a written value is the relation `ReadsBack`: the value, where nothing repeats in it, or the rejection
of a name that does. It is shown of a list of definitions from its definitions (`readsBack_definitions`), of a
record from its members (`readsBack_known`), and so of a model from its parts.

A list that was accepted has no name twice, wherever its text comes from (`nodup_of_readDefinitions`), so the
model of an accepted text can be written and read again. Empty lists of indexes and attributes are not
written, and reading puts them back.
-/

set_option autoImplicit false

namespace SingleTable

open Json

/-! ## Repeated names -/

/-- No list of definitions in a model has a name twice. -/
structure Model.HasDistinctNames (model : Model) : Prop where
  /-- The key attributes of the table have different names. -/
  key : (model.key.map (·.name)).Nodup
  /-- The indexes have different names. -/
  indexes : (model.indexes.map (·.name)).Nodup
  /-- The key attributes of each index have different names. -/
  indexKeys : ∀ index ∈ model.indexes, (index.key.map (·.name)).Nodup
  /-- The attributes have different names. -/
  attributes : (model.attributes.map (·.name)).Nodup

/-- A name that a list of definitions in a model has twice. -/
inductive Model.Repeats (model : Model) (name : String) : Prop
  | key (h : List.Duplicate name (model.key.map (·.name)))
  | index (h : List.Duplicate name (model.indexes.map (·.name)))
  | indexKey (index : IndexDefinition) (hmem : index ∈ model.indexes)
      (h : List.Duplicate name (index.key.map (·.name)))
  | attribute (h : List.Duplicate name (model.attributes.map (·.name)))

/-- Names are distinct exactly if none repeats. -/
theorem Model.hasDistinctNames_iff {model : Model} :
    model.HasDistinctNames ↔ ∀ name, ¬ model.Repeats name := by
  constructor
  · rintro ⟨hkey, hindexes, hindexKeys, hattributes⟩ name (h | h | ⟨index, hmem, h⟩ | h)
    · exact h.not_nodup hkey
    · exact h.not_nodup hindexes
    · exact h.not_nodup (hindexKeys index hmem)
    · exact h.not_nodup hattributes
  · intro h
    exact
      { key := List.nodup_iff_forall_not_duplicate.2 fun name hname => h name (.key hname)
        indexes := List.nodup_iff_forall_not_duplicate.2 fun name hname => h name (.index hname)
        indexKeys := fun index hmem =>
          List.nodup_iff_forall_not_duplicate.2 fun name hname => h name (.indexKey index hmem hname)
        attributes := List.nodup_iff_forall_not_duplicate.2 fun name hname => h name (.attribute hname) }

/-! ## Reading back -/

section ReadsBack

variable {α β : Type}

/-- A reading of what was written for a value: it gives the value back, and no name repeats in the value,
or it rejects a name that does. -/
inductive ReadsBack (value : α) (Repeats : String → Prop) : Read α → Prop
  | back (h : ∀ name, ¬ Repeats name) : ReadsBack value Repeats (.ok value)
  | rejected (name : String) (h : Repeats name) :
      ReadsBack value Repeats (.error (.duplicateDefinition name))

variable {value : α} {Repeats Repeats' : String → Prop} {result : Read α}

/-- A value that is read in any case has no names to repeat. -/
theorem ReadsBack.of_eq_ok (h : result = .ok value) : ReadsBack value (fun _ => False) result := by
  rw [h]
  exact .back fun _ => id

theorem ReadsBack.congr (h : ReadsBack value Repeats result) (hiff : ∀ name, Repeats name ↔ Repeats' name) :
    ReadsBack value Repeats' result := by
  rwa [← funext fun name => propext (hiff name)]

theorem ReadsBack.map (h : ReadsBack value Repeats result) (f : α → β) :
    ReadsBack (f value) Repeats (result.map f) := by
  cases h with
  | back h => exact .back h
  | rejected name h => exact .rejected name h

/-- Of two readings, one after the other, the second counts where the first gives its value back. -/
theorem ReadsBack.bind (h : ReadsBack value Repeats result) {next : α → Read β} {after : β}
    (hnext : ReadsBack after Repeats' (next value)) :
    ReadsBack after (fun name => Repeats name ∨ Repeats' name) (result >>= next) := by
  cases h with
  | back hnone => exact hnext.congr fun name => (or_iff_right (hnone name)).symm
  | rejected name h => exact .rejected name (Or.inl h)

/-- A step that succeeds on the value adds no rejections. -/
theorem ReadsBack.bind_ok (h : ReadsBack value Repeats result) (next : α → Read β) {after : β}
    (hnext : next value = .ok after) : ReadsBack after Repeats (result >>= next) :=
  (h.bind (of_eq_ok hnext)).congr fun _ => or_iff_left id

/-- A value comes back exactly if no name repeats in it. -/
theorem ReadsBack.eq_ok_iff (h : ReadsBack value Repeats result) :
    result = .ok value ↔ ∀ name, ¬ Repeats name := by
  cases h with
  | back h => exact ⟨fun _ => h, fun _ => rfl⟩
  | rejected name h => exact ⟨nofun, fun hnone => absurd h (hnone name)⟩

/-- What is rejected is a name that repeats. -/
theorem ReadsBack.exists_eq_error (h : ReadsBack value Repeats result) (hsome : ¬ ∀ name, ¬ Repeats name) :
    ∃ name, Repeats name ∧ result = .error (.duplicateDefinition name) := by
  cases h with
  | back h => exact absurd h hsome
  | rejected name h => exact ⟨name, h, rfl⟩

end ReadsBack

/-! ## Lists of definitions -/

section Definitions

variable {α β : Type}

/-- A name of a list that was seen before or that the list has twice. -/
def IsRepeated (seen names : List String) (name : String) : Prop :=
  (name ∈ seen ∧ name ∈ names) ∨ List.Duplicate name names

theorem isRepeated_nil_iff {names : List String} {name : String} :
    IsRepeated [] names name ↔ List.Duplicate name names :=
  ⟨fun h => h.resolve_left (fun hseen => nomatch hseen.1), Or.inr⟩

/-- A name that is fresh has been seen for the names behind it. -/
theorem isRepeated_cons_iff {seen rest : List String} {first : String} (hfresh : first ∉ seen)
    (name : String) : IsRepeated (first :: seen) rest name ↔ IsRepeated seen (first :: rest) name := by
  rw [IsRepeated, IsRepeated, List.duplicate_cons_iff, List.mem_cons, List.mem_cons]
  by_cases hname : name = first
  · subst hname
    simp [hfresh]
  · simp [hname, Ne.symm hname]

variable {name : β → String} {write : β → Tree} {value : β → α} {Repeats : β → String → Prop}
  {entries : List β}

/-- Written definitions are read back in order, if none of them has a name that was seen before and each
of them is read back. -/
theorem readsBack_definitions {read : Tree → Read α}
    (hread : ∀ entry ∈ entries, ReadsBack (value entry) (Repeats entry) (read (write entry)))
    (seen : List String) :
    ReadsBack (entries.map fun entry => (name entry, value entry))
      (fun repeated => IsRepeated seen (entries.map name) repeated ∨
        ∃ entry ∈ entries, Repeats entry repeated)
      (readDefinitions read seen (entries.map fun entry => (some (name entry), write entry))) := by
  induction entries generalizing seen with
  | nil =>
    refine .back ?_
    rintro repeated ((⟨-, h⟩ | h) | ⟨entry, h, -⟩) <;> cases h
  | cons entry rest ih =>
    obtain ⟨hentry, hrest⟩ := List.forall_mem_cons.1 hread
    simp only [List.map_cons]
    rw [readDefinitions]
    refine (hentry.bind (?_ : ReadsBack _
      (fun repeated => IsRepeated seen (name entry :: rest.map name) repeated ∨
        ∃ entry ∈ rest, Repeats entry repeated) _)).congr fun repeated => ?_
    · split
      · rename_i hseen
        exact .rejected _ (Or.inl (Or.inl ⟨hseen, List.mem_cons_self ..⟩))
      · rename_i hfresh
        refine ((ih hrest (name entry :: seen)).bind_ok
          (fun values => .ok ((name entry, value entry) :: values)) rfl).congr fun repeated => ?_
        rw [isRepeated_cons_iff hfresh]
    · simp only [List.mem_cons, exists_eq_or_imp]
      exact or_left_comm

/-- An object of definitions is read back in order, if their names are distinct and each of them is read
back. -/
theorem readsBack_declared {read : Nat → Tree → Read α} {depth : Nat} {make : String × α → β}
    (hmake : make ∘ (fun entry => (name entry, value entry)) = id)
    (hread : ∀ entry ∈ entries, ReadsBack (value entry) (Repeats entry) (read depth (write entry))) :
    ReadsBack entries
      (fun repeated => List.Duplicate repeated (entries.map name) ∨ ∃ entry ∈ entries, Repeats entry repeated)
      (readNamed read (depth + 1) (.record (entries.map fun entry => (name entry, write entry))) >>=
        fun definitions => .ok (definitions.map make)) := by
  rw [Tree.record, List.map_map]
  have hdefinitions : (entries.map fun entry => (name entry, value entry)).map make = entries := by
    rw [List.map_map, hmake, List.map_id]
  refine ((readsBack_definitions hread []).bind_ok (fun definitions => .ok (definitions.map make))
    (congrArg Except.ok hdefinitions)).congr fun repeated => ?_
  rw [isRepeated_nil_iff]

/-- The names of accepted definitions are distinct, and each definition was accepted. -/
theorem nodup_of_readDefinitions {read : Tree → Read α} {seen : List String}
    {members : List (Option String × Tree)} {definitions : List (String × α)}
    (h : readDefinitions read seen members = .ok definitions) :
    (definitions.map Prod.fst).Nodup ∧
      ∀ definition ∈ definitions, definition.1 ∉ seen ∧ ∃ tree, read tree = .ok definition.2 := by
  induction members generalizing seen definitions with
  | nil =>
    cases h
    exact ⟨List.nodup_nil, nofun⟩
  | cons member rest ih =>
    obtain ⟨name, tree⟩ := member
    cases name with
    | none =>
      rw [readDefinitions] at h
      cases h
    | some name =>
      rw [readDefinitions] at h
      obtain ⟨value, hvalue, h⟩ := bind_eq_ok_iff.1 h
      split at h
      · cases h
      · rename_i hfresh
        obtain ⟨more, hmore, h⟩ := bind_eq_ok_iff.1 h
        cases h
        obtain ⟨hnodup, hall⟩ := ih hmore
        constructor
        · refine List.nodup_cons.2 ⟨fun hmem => ?_, hnodup⟩
          obtain ⟨definition, hdefinition, hname⟩ := List.mem_map.1 hmem
          exact (hall definition hdefinition).1 (hname ▸ List.mem_cons_self ..)
        · refine List.forall_mem_cons.2 ⟨⟨hfresh, tree, hvalue⟩, fun definition hdefinition => ?_⟩
          obtain ⟨hseen, hread⟩ := hall definition hdefinition
          exact ⟨fun hmem => hseen (List.mem_cons_of_mem _ hmem), hread⟩

variable (name) in
/-- The names of an accepted object of definitions are distinct, and each definition was accepted. -/
theorem nodup_of_declared {read : Nat → Tree → Read α} {make : String × α → β} {depth : Nat} {tree : Tree}
    {declared : List β}
    (h : (readNamed read depth tree >>= fun definitions => .ok (definitions.map make)) = .ok declared)
    (hname : name ∘ make = Prod.fst) :
    (declared.map name).Nodup ∧
      ∀ entry ∈ declared, ∃ depth tree definition,
        read depth tree = .ok definition.2 ∧ make definition = entry := by
  obtain ⟨definitions, hdefinitions, h⟩ := bind_eq_ok_iff.1 h
  cases h
  match depth, tree, hdefinitions with
  | depth + 1, .object members, hdefinitions =>
    obtain ⟨hnodup, hall⟩ := nodup_of_readDefinitions hdefinitions
    constructor
    · rwa [List.map_map, hname]
    · refine List.forall_mem_map.2 fun definition hdefinition => ?_
      obtain ⟨-, tree, htree⟩ := hall definition hdefinition
      exact ⟨depth, tree, definition, htree, rfl⟩

end Definitions

/-! ## Definitions -/

theorem readTemplate_record (template : String) (depth : Nat) :
    readTemplate (depth + 1) (.record [("value", .text template)]) = .ok template := rfl

theorem readTag_tag (kind : ValueType) (depth : Nat) :
    readTag ValueType.ofTag? depth (.text kind.tag) = .ok kind := by
  rw [readTag, ValueType.ofTag?_tag]

theorem readAttribute_record (definition : AttributeDefinition) (depth : Nat) :
    readAttribute (depth + 1) (.record (attributeMembers definition)) =
      .ok (definition.kind, definition.required) := by
  obtain ⟨name, kind, required⟩ := definition
  cases kind with
  | none => cases required <;> rfl
  | some kind =>
    have hkind : ∀ required : Bool,
        ((readTag ValueType.ofTag? depth (.text kind.tag)).map some >>=
          fun kind => Except.ok (kind, required)) = .ok (some kind, required) := by
      intro required
      rw [readTag_tag]
      rfl
    cases required with
    | false => exact hkind false
    | true => exact hkind true

/-- A list of key attributes is read back in order, if their names are distinct. -/
theorem readsBack_key (definitions : List KeyDefinition) (depth : Nat) :
    ReadsBack definitions (fun name => List.Duplicate name (definitions.map (·.name)))
      (readKey (depth + 2) (keyTree definitions)) := by
  have hread := fun (definition : KeyDefinition) (_ : definition ∈ definitions) =>
    ReadsBack.of_eq_ok (readTemplate_record definition.template depth)
  refine (readsBack_declared rfl hread).congr fun name => ?_
  simp only [and_false, exists_false, or_false]

/-- A list of indexes is read back in order, if their names are distinct and so are the names in each of
them. -/
theorem readsBack_indexes (indexes : List IndexDefinition) (depth : Nat) :
    ReadsBack indexes
      (fun name => List.Duplicate name (indexes.map (·.name)) ∨
        ∃ index ∈ indexes, List.Duplicate name (index.key.map (·.name)))
      (readIndexes (depth + 3) (indexTree indexes)) :=
  readsBack_declared rfl fun index _ => readsBack_key index.key depth

/-- A list of attributes is read back in order, if their names are distinct. -/
theorem readsBack_attributes (attributes : List AttributeDefinition) (depth : Nat) :
    ReadsBack attributes (fun name => List.Duplicate name (attributes.map (·.name)))
      (readAttributes (depth + 2) (attributeTree attributes)) := by
  have hread := fun (definition : AttributeDefinition) (_ : definition ∈ attributes) =>
    ReadsBack.of_eq_ok (readAttribute_record definition depth)
  refine (readsBack_declared rfl hread).congr fun name => ?_
  simp only [and_false, exists_false, or_false]

/-! ## Known members -/

section Known

variable {α : Type} {fields : List Field} {read : String → Tree → Read α}

/-- The written members of a record are read back, if the record knows them, their names are distinct and
each of them is read back. -/
theorem readsBack_known {write : α → Tree} {Repeats : α → String → Prop} {parts : List (String × α)}
    (hknown : ∀ part ∈ parts, fields.any (·.name == part.1) = true)
    (hnames : (parts.map Prod.fst).Nodup)
    (hread : ∀ part ∈ parts, ReadsBack part.2 (Repeats part.2) (read part.1 (write part.2)))
    (seen : List String) (hfresh : ∀ part ∈ parts, part.1 ∉ seen) :
    ReadsBack parts (fun name => ∃ part ∈ parts, Repeats part.2 name)
      (readKnown fields read seen (parts.map fun part => (some part.1, write part.2))) := by
  induction parts generalizing seen with
  | nil => exact .back fun name ⟨_, h, _⟩ => nomatch h
  | cons part rest ih =>
    obtain ⟨hpart, hrest⟩ := List.forall_mem_cons.1 hread
    obtain ⟨hname, hnames⟩ := List.nodup_cons.1 hnames
    obtain ⟨hpartFresh, hrestFresh⟩ := List.forall_mem_cons.1 hfresh
    obtain ⟨hpartKnown, hrestKnown⟩ := List.forall_mem_cons.1 hknown
    rw [List.map_cons, readKnown, if_pos hpartKnown, if_neg hpartFresh]
    have hseen : ∀ other ∈ rest, other.1 ∉ part.1 :: seen := by
      intro other hother hmem
      rcases List.mem_cons.1 hmem with heq | hmem
      · exact hname (heq ▸ List.mem_map_of_mem hother)
      · exact hrestFresh other hother hmem
    refine (hpart.bind ((ih hrestKnown hnames hrest (part.1 :: seen) hseen).bind_ok
      (fun values => .ok ((part.1, part.2) :: values)) rfl)).congr fun name => ?_
    simp only [List.mem_cons, exists_eq_or_imp]

/-- What is accepted as a member was read under its name. -/
theorem exists_read_of_readKnown {seen : List String} {members : List (Option String × Tree)}
    {values : List (String × α)} (h : readKnown fields read seen members = .ok values) :
    ∀ value ∈ values, ∃ tree, read value.1 tree = .ok value.2 := by
  induction members generalizing seen values with
  | nil =>
    cases h
    exact nofun
  | cons member rest ih =>
    obtain ⟨name, tree⟩ := member
    cases name with
    | none =>
      rw [readKnown] at h
      cases h
    | some name =>
      rw [readKnown] at h
      split at h
      · split at h
        · cases h
        · obtain ⟨value, hvalue, h⟩ := bind_eq_ok_iff.1 h
          obtain ⟨more, hmore, h⟩ := bind_eq_ok_iff.1 h
          cases h
          exact List.forall_mem_cons.2 ⟨⟨tree, hvalue⟩, ih hmore⟩
      · split at h
        · exact ih h
        · cases h

/-- What is accepted as a member of a record was read under its name. -/
theorem exists_read_of_readRecord {read : Nat → String → Tree → Read α} {depth : Nat} {tree : Tree}
    {values : List (String × α)} (h : readRecord fields read depth tree = .ok values) :
    ∀ value ∈ values, ∃ depth tree, read depth value.1 tree = .ok value.2 := by
  cases depth with
  | zero => cases h
  | succ depth =>
    rw [readRecord] at h
    split at h
    · cases h
    · intro value hvalue
      obtain ⟨tree, htree⟩ := exists_read_of_readKnown h value hvalue
      exact ⟨depth, tree, htree⟩

end Known

/-! ## Parts -/

/-- The document of a part of a model. -/
def ModelPart.toTree : ModelPart → Tree
  | .text value => .text value
  | .key definitions => keyTree definitions
  | .indexes declared => indexTree declared
  | .attributes declared => attributeTree declared

/-- A name that a list of definitions in a part has twice. -/
def ModelPart.Repeats (part : ModelPart) (name : String) : Prop :=
  match part with
  | .text _ => False
  | .key definitions => List.Duplicate name (definitions.map (·.name))
  | .indexes declared => List.Duplicate name (declared.map (·.name)) ∨
      ∃ index ∈ declared, List.Duplicate name (index.key.map (·.name))
  | .attributes declared => List.Duplicate name (declared.map (·.name))

namespace Model

/-- The parts of a model that are written, under their names. -/
def parts (model : Model) : List (String × ModelPart) :=
  [("name", .text model.name), ("tableName", .text model.table), ("key", .key model.key)] ++
    (if model.indexes.isEmpty then [] else [("index", .indexes model.indexes)]) ++
    (if model.attributes.isEmpty then [] else [("attributes", .attributes model.attributes)])

theorem toTree_eq (model : Model) :
    model.toTree = .record (model.parts.map fun part => (part.1, part.2.toTree)) := by
  rw [toTree, parts]
  split <;> split <;> rfl

theorem index_mem_parts {model : Model} (h : model.indexes ≠ []) :
    ("index", .indexes model.indexes) ∈ model.parts := by
  rw [parts, if_neg fun hempty => h (List.isEmpty_iff.1 hempty)]
  simp

theorem attributes_mem_parts {model : Model} (h : model.attributes ≠ []) :
    ("attributes", .attributes model.attributes) ∈ model.parts := by
  rw [parts, if_neg fun hempty : model.attributes.isEmpty = true => h (List.isEmpty_iff.1 hempty)]
  simp

/-- The five kinds of parts. -/
theorem forall_mem_parts {model : Model} {P : String × ModelPart → Prop}
    (hname : P ("name", .text model.name)) (htable : P ("tableName", .text model.table))
    (hkey : P ("key", .key model.key)) (hindex : P ("index", .indexes model.indexes))
    (hattributes : P ("attributes", .attributes model.attributes)) :
    ∀ part ∈ model.parts, P part := by
  intro part hpart
  simp only [parts, List.mem_append, List.mem_cons, List.not_mem_nil, or_false] at hpart
  rcases hpart with ((rfl | rfl | rfl) | hpart) | hpart
  · exact hname
  · exact htable
  · exact hkey
  · split at hpart
    · cases hpart
    · exact List.mem_singleton.1 hpart ▸ hindex
  · split at hpart
    · cases hpart
    · exact List.mem_singleton.1 hpart ▸ hattributes

theorem nodup_parts (model : Model) : (model.parts.map Prod.fst).Nodup := by
  rw [parts]
  split <;> split <;> simp

/-- A name repeats in a model exactly if it repeats in a part that is written. -/
theorem repeats_iff {model : Model} {name : String} :
    model.Repeats name ↔ ∃ part ∈ model.parts, part.2.Repeats name := by
  constructor
  · rintro (h | h | ⟨index, hmem, h⟩ | h)
    · exact ⟨("key", .key model.key), by simp [parts], h⟩
    · exact ⟨_, index_mem_parts (fun hnil => h.ne_nil (by rw [hnil, List.map_nil])), Or.inl h⟩
    · exact ⟨_, index_mem_parts (List.ne_nil_of_mem hmem), Or.inr ⟨index, hmem, h⟩⟩
    · exact ⟨_, attributes_mem_parts (fun hnil => h.ne_nil (by rw [hnil, List.map_nil])), h⟩
  · have hall : ∀ part ∈ model.parts, part.2.Repeats name → model.Repeats name := by
      refine forall_mem_parts False.elim False.elim .key ?_ .attribute
      rintro (h | ⟨index, hmem, h⟩)
      · exact .index h
      · exact .indexKey index hmem h
    rintro ⟨part, hpart, h⟩
    exact hall part hpart h

/-- The parts of a model are read back. -/
theorem readsBack_part (model : Model) (depth : Nat) :
    ∀ part ∈ model.parts, ReadsBack part.2 part.2.Repeats (readPart (depth + 3) part.1 part.2.toTree) := by
  refine forall_mem_parts ?_ ?_ ?_ ?_ ?_
  · exact .of_eq_ok rfl
  · exact .of_eq_ok rfl
  · exact (readsBack_key model.key (depth + 1)).map ModelPart.key
  · exact (readsBack_indexes model.indexes depth).map ModelPart.indexes
  · exact (readsBack_attributes model.attributes (depth + 1)).map ModelPart.attributes

/-- A model is read back, if no name repeats in one of its lists. -/
theorem readsBack_read (model : Model) (depth : Nat) :
    ReadsBack model model.Repeats (read (depth + 4) model.toTree) := by
  have hparts : ReadsBack model.parts model.Repeats
      (readRecord modelFields readPart (depth + 4) model.toTree) := by
    rw [toTree_eq, Tree.record, List.map_map, readRecord]
    have hknown : ∀ part ∈ model.parts, modelFields.any (·.name == part.1) = true :=
      forall_mem_parts rfl rfl rfl rfl rfl
    refine (readsBack_known hknown model.nodup_parts (model.readsBack_part depth) []
      fun _ _ => List.not_mem_nil).congr fun name => ?_
    exact repeats_iff.symm
  refine hparts.bind_ok _ ?_
  obtain ⟨name, table, key, indexes, attributes⟩ := model
  cases indexes <;> cases attributes <;> rfl

theorem intact_keyTree (definitions : List KeyDefinition) : (keyTree definitions).intact = true :=
  Tree.intact_record_iff.2 (List.forall_mem_map.2 fun _ _ => rfl)

theorem intact_attributeMembers (definition : AttributeDefinition) :
    (Tree.record (attributeMembers definition)).intact = true := by
  obtain ⟨name, kind, required⟩ := definition
  cases kind <;> cases required <;> rfl

/-- The document of a model has no fault. -/
theorem intact_toTree (model : Model) : model.toTree.intact = true := by
  rw [toTree_eq]
  refine Tree.intact_record_iff.2 (List.forall_mem_map.2 (forall_mem_parts rfl rfl ?_ ?_ ?_))
  · exact intact_keyTree model.key
  · exact Tree.intact_record_iff.2 (List.forall_mem_map.2 fun index _ => intact_keyTree index.key)
  · exact Tree.intact_record_iff.2
      (List.forall_mem_map.2 fun definition _ => intact_attributeMembers definition)

/-! ## Accepted texts -/

/-- No name repeats in an accepted part. -/
theorem not_repeats_of_readPart {depth : Nat} {name : String} {tree : Tree} {part : ModelPart}
    (h : readPart depth name tree = .ok part) (repeated : String) : ¬ part.Repeats repeated := by
  rw [readPart] at h
  split_ifs at h
  · obtain ⟨definitions, hread, rfl⟩ := map_eq_ok_iff.1 h
    exact fun hrepeats => hrepeats.not_nodup (nodup_of_declared KeyDefinition.name hread rfl).1
  · obtain ⟨declared, hread, rfl⟩ := map_eq_ok_iff.1 h
    obtain ⟨hnodup, hall⟩ := nodup_of_declared IndexDefinition.name hread rfl
    rintro (hrepeats | ⟨index, hindex, hrepeats⟩)
    · exact hrepeats.not_nodup hnodup
    · obtain ⟨_, _, key, hkey, rfl⟩ := hall index hindex
      exact hrepeats.not_nodup (nodup_of_declared KeyDefinition.name hkey rfl).1
  · obtain ⟨declared, hread, rfl⟩ := map_eq_ok_iff.1 h
    exact fun hrepeats => hrepeats.not_nodup (nodup_of_declared AttributeDefinition.name hread rfl).1
  · obtain ⟨_, _, rfl⟩ := map_eq_ok_iff.1 h
    exact id

/-- The lists of an accepted model are parts that were accepted, or empty. -/
theorem exists_parts_of_read {depth : Nat} {tree : Tree} {model : Model} (h : read depth tree = .ok model) :
    ∃ parts, readRecord modelFields readPart depth tree = .ok parts ∧
      findEntry "key" parts = some (.key model.key) ∧
      (model.indexes = [] ∨ findEntry "index" parts = some (.indexes model.indexes)) ∧
      (model.attributes = [] ∨ findEntry "attributes" parts = some (.attributes model.attributes)) := by
  obtain ⟨parts, hparts, h⟩ := bind_eq_ok_iff.1 h
  refine ⟨parts, hparts, ?_⟩
  split at h
  · rename_i hkey
    cases h
    refine ⟨hkey, ?_, ?_⟩
    · dsimp only
      split
      · rename_i hfound
        exact Or.inr hfound
      · exact Or.inl rfl
    · dsimp only
      split
      · rename_i hfound
        exact Or.inr hfound
      · exact Or.inl rfl
  · cases h

/-- No name repeats in an accepted model. -/
theorem not_repeats_of_read {depth : Nat} {tree : Tree} {model : Model} (h : read depth tree = .ok model)
    (name : String) : ¬ model.Repeats name := by
  obtain ⟨parts, hparts, hkey, hindexes, hattributes⟩ := exists_parts_of_read h
  have hpart : ∀ part : String × ModelPart, part ∈ parts → ¬ part.2.Repeats name := by
    intro part hpart
    obtain ⟨_, _, hread⟩ := exists_read_of_readRecord hparts part hpart
    exact not_repeats_of_readPart hread name
  rintro (hrepeats | hrepeats | ⟨index, hmem, hrepeats⟩ | hrepeats)
  · exact hpart _ (mem_of_findEntry hkey) hrepeats
  · rcases hindexes with hnil | hfound
    · rw [hnil] at hrepeats
      exact hrepeats.elim_nil
    · exact hpart _ (mem_of_findEntry hfound) (Or.inl hrepeats)
  · rcases hindexes with hnil | hfound
    · rw [hnil] at hmem
      cases hmem
    · exact hpart _ (mem_of_findEntry hfound) (Or.inr ⟨index, hmem, hrepeats⟩)
  · rcases hattributes with hnil | hfound
    · rw [hnil] at hrepeats
      exact hrepeats.elim_nil
    · exact hpart _ (mem_of_findEntry hfound) hrepeats

/-! ## Round trips -/

/-- The text of a model is read back, if no name repeats in one of its lists. -/
theorem readsBack_ofJson (model : Model) : ReadsBack model model.Repeats (ofJson model.toJson) := by
  rw [ofJson, toJson, readDocument_toText read (intact_toTree model)]
  exact model.readsBack_read 123

/-- **Models round trip.** The text of a model is read as the very model exactly if no list of definitions
in it has a name twice, and else a name that some list has twice is reported. Every accepted text is read as a
model whose lists have distinct names, so it can be written and read again. -/
theorem models_round_trip :
    (∀ model : Model, ofJson model.toJson = .ok model ↔ model.HasDistinctNames) ∧
    (∀ model : Model, ¬ model.HasDistinctNames →
      ∃ name, model.Repeats name ∧ ofJson model.toJson = .error (.duplicateDefinition name) ∧
        (Rejection.duplicateDefinition name).message? =
          some ("duplicate definition '" ++ name ++ "'")) ∧
    (∀ (text : String) (model : Model), ofJson text = .ok model →
      model.HasDistinctNames ∧ ofJson model.toJson = .ok model) := by
  refine ⟨fun model => ?_, fun model hrepeats => ?_, fun text model haccepted => ?_⟩
  · rw [hasDistinctNames_iff]
    exact model.readsBack_ofJson.eq_ok_iff
  · rw [hasDistinctNames_iff] at hrepeats
    obtain ⟨name, hname, hrejected⟩ := model.readsBack_ofJson.exists_eq_error hrepeats
    exact ⟨name, hname, hrejected, rfl⟩
  · have hread := (readDocument_eq_ok_iff.1 haccepted).1
    have hnone := not_repeats_of_read hread
    exact ⟨hasDistinctNames_iff.2 hnone, model.readsBack_ofJson.eq_ok_iff.2 hnone⟩

/-- Posts with an index that is declared before the attributes it is made of. -/
def posts : Model where
  name := "Post"
  table := "app \"test\"\n"
  key := [⟨"SK", "POST#${id}"⟩, ⟨"PK", "USER#${author}"⟩]
  indexes := [⟨"byTag", [⟨"GPK", "TAG#${tag}"⟩, ⟨"GSK", "${id}"⟩]⟩, ⟨"", []⟩]
  attributes := [⟨"tag", none, false⟩, ⟨"id", some .number, true⟩, ⟨"\x07", some .binarySet, false⟩]

/-- Posts whose index has a key attribute twice. -/
def repeatedPosts : Model :=
  { posts with indexes := [⟨"byTag", [⟨"GPK", "TAG#${tag}"⟩, ⟨"GPK", "${id}"⟩]⟩] }

/-- The text of the posts is read as the posts, and that of the others is rejected for the repeated key. -/
theorem models_round_trip_posts :
    posts.HasDistinctNames ∧ ofJson posts.toJson = .ok posts ∧
      ¬ repeatedPosts.HasDistinctNames ∧
        ofJson repeatedPosts.toJson = .error (.duplicateDefinition "GPK") ∧
          (Rejection.duplicateDefinition "GPK").message? = some "duplicate definition 'GPK'" := by
  have hread : ofJson posts.toJson = .ok posts :=
    (models_round_trip.1 posts).2 ⟨by decide, by decide, by decide, by decide⟩
  obtain ⟨hdistinct, -⟩ := models_round_trip.2.2 posts.toJson posts hread
  have hrepeats : ¬ repeatedPosts.HasDistinctNames := fun h => absurd h.indexKeys (by decide)
  obtain ⟨name, hname, hrejected, hmessage⟩ := models_round_trip.2.1 repeatedPosts hrepeats
  obtain rfl : name = "GPK" := by
    rcases hname with h | h | ⟨index, hindex, h⟩ | h
    · exact absurd (by decide) h.not_nodup
    · exact absurd (by decide) h.not_nodup
    · obtain rfl := List.mem_singleton.1 hindex
      simpa using h.mem
    · exact absurd (by decide) h.not_nodup
  exact ⟨hdistinct, hread, hrepeats, hrejected, hmessage.trans rfl⟩

end Model

end SingleTable
