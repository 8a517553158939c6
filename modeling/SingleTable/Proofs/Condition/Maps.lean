import SingleTable.Condition.Compile
import SingleTable.Proofs.Condition.Built

/-!
# The maps of an expression

The placeholder maps of a condition, and those of key conditions, are the maps of the leaves written over
each other from left to right. Where the leaves agree about a placeholder, the order does not matter: the
placeholder stands for whatever one of the leaves says (`get?_valuesOf_iff`).
-/

set_option autoImplicit false

namespace SingleTable

namespace Dict

variable {α : Type}

theorem empty_extend (dict : Dict α) : empty.extend dict = dict := ofList_entries dict

/-- It does not matter in which order dictionaries are put together, only which of them is written last. -/
theorem extend_assoc (first second third : Dict α) :
    (first.extend second).extend third = first.extend (second.extend third) := by
  apply ext_get?
  intro name
  rw [get?_extend, get?_extend, get?_extend, get?_extend, Option.or_assoc]

/-- A list with some entry of a name has one that is found first. -/
theorem exists_findEntry_of_mem {name : String} {value : α} {entries : List (String × α)}
    (h : (name, value) ∈ entries) : ∃ found, findEntry name entries = some found := by
  induction entries with
  | nil => simp at h
  | cons entry rest ih =>
    rw [findEntry]
    split
    · exact ⟨_, rfl⟩
    · rename_i hne
      rcases List.mem_cons.1 h with rfl | hrest
      · exact absurd rfl hne
      · exact ih hrest

/-- Where the entries of a list agree about a name, the dictionary of the list has whatever they say. -/
theorem get?_ofList_iff {entries : List (String × α)} {name : String}
    (hagree : ∀ v w, (name, v) ∈ entries → (name, w) ∈ entries → v = w) {value : α} :
    (ofList entries).get? name = some value ↔ (name, value) ∈ entries := by
  rw [get?_ofList]
  constructor
  · intro h
    exact List.mem_reverse.1 (mem_of_findEntry h)
  · intro h
    obtain ⟨found, hfound⟩ := exists_findEntry_of_mem (List.mem_reverse.2 h)
    rw [hfound, hagree found value (List.mem_reverse.1 (mem_of_findEntry hfound)) h]

/-- Where the items of a list agree about a name, the dictionary of all their entries has what they say. -/
theorem get?_ofList_flatMap_iff {ι : Type} {items : List ι} {entries : ι → List (String × α)}
    {name : String}
    (hagree : ∀ a ∈ items, ∀ b ∈ items, ∀ v w, (name, v) ∈ entries a → (name, w) ∈ entries b → v = w) {value : α} :
    (ofList (items.flatMap entries)).get? name = some value ↔ ∃ item ∈ items, (name, value) ∈ entries item := by
  rw [← List.mem_flatMap]
  apply get?_ofList_iff
  intro v w hv hw
  obtain ⟨a, ha, hv⟩ := List.mem_flatMap.1 hv
  obtain ⟨b, hb, hw⟩ := List.mem_flatMap.1 hw
  exact hagree a ha b hb v w hv hw

/-- Where two dictionaries agree about a name, it does not matter which of them is written last. -/
theorem get?_extend_iff {dict other : Dict α} {name : String}
    (hagree : ∀ v w, dict.get? name = some v → other.get? name = some w → v = w) {value : α} :
    (dict.extend other).get? name = some value ↔
      dict.get? name = some value ∨ other.get? name = some value := by
  rw [get?_extend, Option.or_eq_some_iff]
  constructor
  · rintro (h | ⟨-, h⟩)
    · exact Or.inr h
    · exact Or.inl h
  · rintro (h | h)
    · cases hother : other.get? name with
      | none => exact Or.inr ⟨rfl, h⟩
      | some found => exact Or.inl (by rw [hagree value found h hother])
    · exact Or.inl h

/-- Dictionaries that are written over a first one, put together before. -/
theorem foldl_extend {ι : Type} (f : ι → Dict α) (items : List ι) (dict : Dict α) :
    items.foldl (fun found item => found.extend (f item)) dict =
      dict.extend (items.foldl (fun found item => found.extend (f item)) empty) := by
  induction items generalizing dict with
  | nil => rfl
  | cons item rest ih =>
    rw [List.foldl_cons, List.foldl_cons, ih, ih (empty.extend (f item)), empty_extend, extend_assoc]

/-- Of dictionaries written over each other, the last one with a name counts. -/
theorem get?_foldl_extend {ι : Type} (f : ι → Dict α) (items : List ι) (name : String) :
    (items.foldl (fun found item => found.extend (f item)) empty).get? name =
      items.reverse.findSome? fun item => (f item).get? name := by
  induction items with
  | nil => rfl
  | cons item rest ih =>
    rw [List.foldl_cons, foldl_extend, empty_extend, get?_extend, ih, List.reverse_cons, List.findSome?_append,
      List.findSome?_singleton]

/-- Where dictionaries agree about a name, all of them written over each other have whatever one says. -/
theorem get?_foldl_extend_iff {ι : Type} {f : ι → Dict α} {items : List ι} {name : String}
    (hagree : ∀ a ∈ items, ∀ b ∈ items, ∀ v w,
      (f a).get? name = some v → (f b).get? name = some w → v = w) {value : α} :
    (items.foldl (fun found item => found.extend (f item)) empty).get? name = some value ↔
      ∃ item ∈ items, (f item).get? name = some value := by
  induction items generalizing value with
  | nil => simp
  | cons item rest ih =>
    have hrest : ∀ found, (rest.foldl (fun found item => found.extend (f item)) empty).get? name = some found ↔
        ∃ other ∈ rest, (f other).get? name = some found := fun found =>
      ih fun a ha b hb => hagree a (List.mem_cons_of_mem _ ha) b (List.mem_cons_of_mem _ hb)
    rw [List.foldl_cons, foldl_extend, empty_extend, get?_extend_iff, hrest]
    · simp
    -- A value that the rest gives is given by one dictionary of it.
    · intro v w hv hw
      obtain ⟨other, hother, hother'⟩ := (hrest w).1 hw
      exact hagree item List.mem_cons_self other (List.mem_cons_of_mem _ hother) v w hv hother'

end Dict

namespace Condition

theorem namesOf_append (front back : List Leaf) :
    namesOf (front ++ back) = (namesOf front).extend (namesOf back) := by
  rw [namesOf, List.foldl_append, Dict.foldl_extend]
  rfl

theorem valuesOf_append (front back : List Leaf) :
    valuesOf (front ++ back) = (valuesOf front).extend (valuesOf back) := by
  rw [valuesOf, List.foldl_append, Dict.foldl_extend]
  rfl

/-- Merging the expressions of conditions into a fragment writes the maps of all their leaves over its maps. -/
theorem merge_compiled (start : Fragment) (conditions : List Condition) :
    (conditions.map compile).foldl Fragment.merge start =
      { start with
        names := start.names.extend (namesOf (leavesOfAll conditions))
        values := start.values.extend (valuesOf (leavesOfAll conditions)) } := by
  induction conditions generalizing start with
  | nil => rfl
  | cons condition rest ih =>
    rw [List.map_cons, List.foldl_cons, ih, leavesOfAll, namesOf_append, valuesOf_append,
      ← Dict.extend_assoc, ← Dict.extend_assoc]
    rfl

/-- Among leaves that agree about their placeholders, a placeholder stands for what a leaf says. -/
theorem get?_valuesOf_iff {leaves : List Leaf} {placeholder : String}
    (hagree : ∀ a ∈ leaves, ∀ b ∈ leaves, ∀ v w,
      a.values.get? placeholder = some v → b.values.get? placeholder = some w → v = w) {value : Value} :
    (valuesOf leaves).get? placeholder = some value ↔
      ∃ leaf ∈ leaves, leaf.values.get? placeholder = some value :=
  Dict.get?_foldl_extend_iff hagree

/-- Among leaves that agree about their name tokens, a token stands for what a leaf says. -/
theorem get?_namesOf_iff {leaves : List Leaf} {token : String}
    (hagree : ∀ a ∈ leaves, ∀ b ∈ leaves, ∀ v w,
      a.names.get? token = some v → b.names.get? token = some w → v = w) {name : String} :
    (namesOf leaves).get? token = some name ↔ ∃ leaf ∈ leaves, leaf.names.get? token = some name :=
  Dict.get?_foldl_extend_iff hagree

end Condition

/-- The names of key conditions are those of their leaves. -/
theorem names_compileKeys (conditions : List Condition) :
    (compileKeys conditions).names = Condition.namesOf (Condition.leavesOfAll conditions) := by
  rw [compileKeys, Condition.merge_compiled]
  exact Dict.empty_extend _

/-- The values of key conditions are those of their leaves. -/
theorem values_compileKeys (conditions : List Condition) :
    (compileKeys conditions).values = Condition.valuesOf (Condition.leavesOfAll conditions) := by
  rw [compileKeys, Condition.merge_compiled]
  exact Dict.empty_extend _

end SingleTable
