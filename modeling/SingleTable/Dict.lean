/-!
# Dictionaries

A dictionary keeps at most one entry for a name. Its entries are stored in increasing order of their
names, so two dictionaries with the same look-ups are equal (`Dict.ext_get?`) and the order in which
entries were written leaves no trace. Inserting replaces the entry of the name.
-/

set_option autoImplicit false

namespace SingleTable

variable {α β : Type}

/-! ## Ordered entry lists -/

/-- Writes an entry into an ordered entry list, in the place of the entry of the same name if there
is one. -/
def insertEntry (name : String) (value : α) : List (String × α) → List (String × α)
  | [] => [(name, value)]
  | entry :: rest =>
    if name < entry.1 then (name, value) :: entry :: rest
    else if name = entry.1 then (name, value) :: rest
    else entry :: insertEntry name value rest

/-- The value of the first entry of a name. -/
def findEntry (name : String) : List (String × α) → Option α
  | [] => none
  | entry :: rest => if name = entry.1 then some entry.2 else findEntry name rest

/-- The entries of a list are in strictly increasing order of their names. -/
def Increasing (entries : List (String × α)) : Prop :=
  entries.Pairwise (fun a b => a.1 < b.1)

/-- Every entry of the new list is the written one or was there before. -/
theorem mem_insertEntry {name : String} {value : α} {entry : String × α}
    {entries : List (String × α)} (h : entry ∈ insertEntry name value entries) :
    entry = (name, value) ∨ entry ∈ entries := by
  induction entries with
  | nil => simpa [insertEntry] using h
  | cons first rest ih =>
    rw [insertEntry] at h
    split at h
    · simpa using h
    · split at h
      · rcases List.mem_cons.1 h with rfl | h
        · exact Or.inl rfl
        · exact Or.inr (List.mem_cons_of_mem _ h)
      · rcases List.mem_cons.1 h with rfl | h
        · exact Or.inr (List.mem_cons_self ..)
        · exact (ih h).imp_right (List.mem_cons_of_mem _)

/-- Writing an entry keeps the order. -/
theorem Increasing.insertEntry {name : String} {value : α} {entries : List (String × α)}
    (h : Increasing entries) : Increasing (insertEntry name value entries) := by
  induction entries with
  | nil => simp [SingleTable.insertEntry, Increasing]
  | cons first rest ih =>
    have hfirst : ∀ entry ∈ rest, first.1 < entry.1 := (List.pairwise_cons.1 h).1
    have hrest : Increasing rest := (List.pairwise_cons.1 h).2
    rw [SingleTable.insertEntry]
    split
    · rename_i hlt
      refine List.pairwise_cons.2 ⟨fun entry he => ?_, h⟩
      rcases List.mem_cons.1 he with rfl | he
      · exact hlt
      · exact String.lt_trans hlt (hfirst entry he)
    · split
      · rename_i heq
        exact List.pairwise_cons.2 ⟨fun entry he => by rw [heq]; exact hfirst entry he, hrest⟩
      · rename_i hnlt hne
        refine List.pairwise_cons.2 ⟨fun entry he => ?_, ih hrest⟩
        rcases mem_insertEntry he with rfl | he
        · exact Std.lt_of_le_of_ne (String.not_lt.1 hnlt) (Ne.symm hne)
        · exact hfirst entry he

/-- Looking up a name after an entry was written. -/
theorem findEntry_insertEntry (name other : String) (value : α) (entries : List (String × α)) :
    findEntry other (insertEntry name value entries) =
      if other = name then some value else findEntry other entries := by
  induction entries with
  | nil => simp [insertEntry, findEntry]
  | cons first rest ih =>
    obtain ⟨k, v⟩ := first
    rw [insertEntry]
    split
    · simp [findEntry]
    · split
      · rename_i heq
        have heq : name = k := heq
        subst heq
        by_cases h : other = name <;> simp [findEntry, h]
      · rename_i hne
        have hne : ¬ name = k := hne
        by_cases hk : other = k
        · subst hk
          simp [findEntry, Ne.symm hne]
        · simp [findEntry, hk, ih]

/-- A name below all names of a list has no entry in it. -/
theorem findEntry_eq_none {name : String} {entries : List (String × α)}
    (h : ∀ entry ∈ entries, name < entry.1) : findEntry name entries = none := by
  induction entries with
  | nil => rfl
  | cons first rest ih =>
    have hfirst : name ≠ first.1 := fun heq =>
      absurd (h first (List.mem_cons_self ..)) (heq ▸ String.lt_irrefl _)
    rw [findEntry, if_neg hfirst]
    exact ih fun entry he => h entry (List.mem_cons_of_mem _ he)

/-- Ordered entry lists with the same look-ups are equal. -/
theorem Increasing.ext {left right : List (String × α)} (hl : Increasing left)
    (hr : Increasing right) (h : ∀ name, findEntry name left = findEntry name right) :
    left = right := by
  induction left generalizing right with
  | nil =>
    cases right with
    | nil => rfl
    | cons second rest => simpa [findEntry] using h second.1
  | cons first rest ih =>
    cases right with
    | nil => simpa [findEntry] using h first.1
    | cons second rest' =>
      have hfirst : ∀ entry ∈ rest, first.1 < entry.1 := (List.pairwise_cons.1 hl).1
      have hsecond : ∀ entry ∈ rest', second.1 < entry.1 := (List.pairwise_cons.1 hr).1
      have hname : first.1 = second.1 := by
        by_cases heq : first.1 = second.1
        · exact heq
        · have hcases : first.1 < second.1 ∨ second.1 < first.1 := by
            by_cases hlt : first.1 < second.1
            · exact Or.inl hlt
            · exact Or.inr (Std.lt_of_le_of_ne (String.not_lt.1 hlt) (Ne.symm heq))
          rcases hcases with hlt | hlt
          · have hnone : findEntry first.1 (second :: rest') = none :=
              findEntry_eq_none fun entry he => by
                rcases List.mem_cons.1 he with rfl | he
                · exact hlt
                · exact String.lt_trans hlt (hsecond entry he)
            have := h first.1
            rw [hnone, findEntry, if_pos rfl] at this
            simp at this
          · have hnone : findEntry second.1 (first :: rest) = none :=
              findEntry_eq_none fun entry he => by
                rcases List.mem_cons.1 he with rfl | he
                · exact hlt
                · exact String.lt_trans hlt (hfirst entry he)
            have := h second.1
            rw [hnone, findEntry, if_pos rfl] at this
            simp at this
      have hvalue : first.2 = second.2 := by
        have := h first.1
        rw [findEntry, if_pos rfl, findEntry, if_pos hname] at this
        exact Option.some.inj this
      have htail : rest = rest' := by
        apply ih (List.pairwise_cons.1 hl).2 (List.pairwise_cons.1 hr).2
        intro name
        by_cases heq : name = first.1
        · subst heq
          rw [findEntry_eq_none hfirst, hname, findEntry_eq_none hsecond]
        · have := h name
          rwa [findEntry, if_neg heq, findEntry, if_neg (hname ▸ heq)] at this
      rw [htail, Prod.ext hname hvalue]

/-- The names of an ordered entry list are different from each other. -/
theorem Increasing.nodup {entries : List (String × α)} (h : Increasing entries) :
    (entries.map Prod.fst).Nodup := by
  refine List.pairwise_map.2 (h.imp fun {a b} hlt heq => ?_)
  rw [heq] at hlt
  exact String.lt_irrefl _ hlt

/-- Looking up a name in two lists, one behind the other. -/
theorem findEntry_append (name : String) (front back : List (String × α)) :
    findEntry name (front ++ back) = (findEntry name front).or (findEntry name back) := by
  induction front with
  | nil => rfl
  | cons entry rest ih =>
    rw [List.cons_append, findEntry, findEntry]
    split
    · rfl
    · exact ih

/-- A value that is found stands in the list under its name. -/
theorem mem_of_findEntry {name : String} {value : α} {entries : List (String × α)}
    (h : findEntry name entries = some value) : (name, value) ∈ entries := by
  induction entries with
  | nil => simp [findEntry] at h
  | cons entry rest ih =>
    rw [findEntry] at h
    split at h
    · rename_i heq
      cases h
      rw [heq]
      exact List.mem_cons_self ..
    · exact List.mem_cons_of_mem _ (ih h)

/-- Among different names, the entries of a list are what is found in it. -/
theorem findEntry_eq_some_iff {name : String} {value : α} {entries : List (String × α)}
    (h : (entries.map Prod.fst).Nodup) :
    findEntry name entries = some value ↔ (name, value) ∈ entries := by
  refine ⟨mem_of_findEntry, fun hmem => ?_⟩
  induction entries with
  | nil => simp at hmem
  | cons entry rest ih =>
    obtain ⟨hfirst, hrest⟩ := List.nodup_cons.1 h
    rw [findEntry]
    rcases List.mem_cons.1 hmem with rfl | hmem
    · rw [if_pos rfl]
    · have hne : name ≠ entry.1 := fun heq =>
        hfirst (heq ▸ List.mem_map_of_mem (f := Prod.fst) hmem)
      rw [if_neg hne]
      exact ih hrest hmem

/-- Among different names, the order of a list does not matter to a look-up. -/
theorem findEntry_perm {left right : List (String × α)} (h : left.Perm right)
    (hnames : (left.map Prod.fst).Nodup) (name : String) :
    findEntry name left = findEntry name right := by
  have hright : (right.map Prod.fst).Nodup := (h.map Prod.fst).nodup_iff.1 hnames
  apply Option.ext
  intro value
  rw [findEntry_eq_some_iff hnames, findEntry_eq_some_iff hright, h.mem_iff]

theorem findEntry_reverse {entries : List (String × α)} (h : (entries.map Prod.fst).Nodup)
    (name : String) : findEntry name entries.reverse = findEntry name entries :=
  (findEntry_perm entries.reverse_perm.symm h name).symm

/-- Writing an entry of a new name adds it and moves no other entry. -/
theorem insertEntry_perm {name : String} {value : α} {entries : List (String × α)}
    (h : name ∉ entries.map Prod.fst) : (insertEntry name value entries).Perm ((name, value) :: entries) := by
  induction entries with
  | nil => exact List.Perm.refl _
  | cons first rest ih =>
    have hfirst : name ≠ first.1 := fun heq => h (heq ▸ List.mem_cons_self ..)
    have hrest : name ∉ rest.map Prod.fst := fun hmem => h (List.mem_cons_of_mem _ hmem)
    rw [insertEntry, if_neg hfirst]
    split
    · exact List.Perm.refl _
    · exact ((ih hrest).cons first).trans (List.Perm.swap _ _ _)

/-! ## Dictionaries -/

/-- A finite map from names to values. -/
structure Dict (α : Type) where
  /-- The entries in increasing order of their names. -/
  entries : List (String × α)
  /-- The order of the entries. -/
  increasing : Increasing entries := by exact List.Pairwise.nil
  deriving DecidableEq

namespace Dict

/-- The dictionary without entries. -/
def empty : Dict α := ⟨[], List.Pairwise.nil⟩

instance : Inhabited (Dict α) := ⟨empty⟩

instance : EmptyCollection (Dict α) := ⟨empty⟩

/-- The value of a name. -/
def get? (dict : Dict α) (name : String) : Option α := findEntry name dict.entries

/-- Writes one entry, in the place of the entry of the same name. -/
def insert (dict : Dict α) (name : String) (value : α) : Dict α :=
  ⟨insertEntry name value dict.entries, dict.increasing.insertEntry⟩

/-- Writes a list of entries in order, so that a later entry wins over an earlier one of its
name. -/
def insertAll (dict : Dict α) (entries : List (String × α)) : Dict α :=
  entries.foldl (fun d entry => d.insert entry.1 entry.2) dict

/-- The dictionary of a list of entries, a later entry winning over an earlier one of its name. -/
def ofList (entries : List (String × α)) : Dict α := empty.insertAll entries

/-- Writes all entries of another dictionary, which win over the ones that were there. -/
def extend (dict other : Dict α) : Dict α := dict.insertAll other.entries

/-- The dictionary with one entry. -/
def singleton (name : String) (value : α) : Dict α := empty.insert name value

/-- Whether there is no entry. -/
def isEmpty (dict : Dict α) : Bool := dict.entries.isEmpty

/-- The number of entries. -/
def size (dict : Dict α) : Nat := dict.entries.length

/-- The names in increasing order. -/
def names (dict : Dict α) : List String := dict.entries.map Prod.fst

/-- The values in the order of their names. -/
def values (dict : Dict α) : List α := dict.entries.map Prod.snd

/-- Whether a name has an entry. -/
def contains (dict : Dict α) (name : String) : Bool := (dict.get? name).isSome

/-- Changes every value and keeps the names. -/
def map (f : α → β) (dict : Dict α) : Dict β :=
  ⟨dict.entries.map (fun entry => (entry.1, f entry.2)),
    List.pairwise_map.2 (dict.increasing.imp id)⟩

/-! ## Look-ups -/

theorem isEmpty_iff {dict : Dict α} : dict.isEmpty = true ↔ dict = empty := by
  constructor
  · intro h
    obtain ⟨entries, increasing⟩ := dict
    cases List.isEmpty_iff.1 h
    rfl
  · rintro rfl
    rfl

/-- **Extensionality.** Dictionaries with the same look-ups are equal. -/
theorem ext_get? {left right : Dict α} (h : ∀ name, left.get? name = right.get? name) :
    left = right := by
  have hentries := Increasing.ext left.increasing right.increasing h
  cases left
  cases right
  cases hentries
  rfl

@[simp] theorem get?_empty (name : String) : (empty : Dict α).get? name = none := rfl

theorem get?_insert (dict : Dict α) (name other : String) (value : α) :
    (dict.insert name value).get? other = if other = name then some value else dict.get? other :=
  findEntry_insertEntry name other value dict.entries

@[simp] theorem insertAll_nil (dict : Dict α) : dict.insertAll [] = dict := rfl

@[simp] theorem insertAll_cons (dict : Dict α) (entry : String × α)
    (rest : List (String × α)) :
    dict.insertAll (entry :: rest) = (dict.insert entry.1 entry.2).insertAll rest := rfl

/-- The last written entry of a name counts, and without one the entry that was there. -/
theorem get?_insertAll (dict : Dict α) (entries : List (String × α)) (name : String) :
    (dict.insertAll entries).get? name = (findEntry name entries.reverse).or (dict.get? name) := by
  induction entries generalizing dict with
  | nil => rfl
  | cons entry rest ih =>
    rw [insertAll_cons, ih, get?_insert, List.reverse_cons, findEntry_append, findEntry, findEntry]
    cases findEntry name rest.reverse with
    | some value => rfl
    | none =>
      rw [Option.none_or, Option.none_or]
      split <;> rfl

/-- The last entry of a name counts. -/
theorem get?_ofList (entries : List (String × α)) (name : String) :
    (ofList entries).get? name = findEntry name entries.reverse := by
  rw [ofList, get?_insertAll, get?_empty, Option.or_none]

/-- The entries of a dictionary are what is found in it. -/
theorem mem_entries_iff {dict : Dict α} {name : String} {value : α} :
    (name, value) ∈ dict.entries ↔ dict.get? name = some value :=
  (findEntry_eq_some_iff dict.increasing.nodup).symm

/-- The names of a dictionary are those with an entry. -/
theorem mem_names_iff {dict : Dict α} {name : String} :
    name ∈ dict.names ↔ ∃ value, dict.get? name = some value := by
  rw [names, List.mem_map]
  constructor
  · rintro ⟨⟨found, value⟩, hentry, rfl⟩
    exact ⟨value, mem_entries_iff.1 hentry⟩
  · rintro ⟨value, hvalue⟩
    exact ⟨(name, value), mem_entries_iff.2 hvalue, rfl⟩

/-- The entries of the other dictionary win. -/
theorem get?_extend (dict other : Dict α) (name : String) :
    (dict.extend other).get? name = (other.get? name).or (dict.get? name) := by
  rw [extend, get?_insertAll, findEntry_reverse other.increasing.nodup]
  rfl

theorem get?_singleton (name other : String) (value : α) :
    (singleton name value).get? other = if other = name then some value else none := by
  rw [singleton, get?_insert, get?_empty]

theorem get?_map (f : α → β) (dict : Dict α) (name : String) :
    (dict.map f).get? name = (dict.get? name).map f := by
  have hmap : ∀ entries : List (String × α),
      findEntry name (entries.map fun entry => (entry.1, f entry.2)) =
        (findEntry name entries).map f := by
    intro entries
    induction entries with
    | nil => rfl
    | cons entry rest ih =>
      rw [List.map_cons, findEntry, findEntry, ih]
      split <;> rfl
  exact hmap dict.entries

/-- An ordered list without repetitions is the entries of its dictionary. -/
theorem ofList_entries (dict : Dict α) : ofList dict.entries = dict := by
  apply ext_get?
  intro name
  rw [get?_ofList, findEntry_reverse dict.increasing.nodup]
  rfl

/-- Among different names, the order in which entries are written leaves no trace. -/
theorem ofList_perm {left right : List (String × α)} (h : left.Perm right)
    (hnames : (left.map Prod.fst).Nodup) : ofList left = ofList right := by
  have hright : (right.map Prod.fst).Nodup := (h.map Prod.fst).nodup_iff.1 hnames
  apply ext_get?
  intro name
  rw [get?_ofList, get?_ofList, findEntry_reverse hnames, findEntry_reverse hright]
  exact findEntry_perm h hnames name

/-- Writing entries of new names that are different from each other loses none of them. -/
theorem entries_insertAll_perm (dict : Dict α) {entries : List (String × α)}
    (h : (dict.entries.map Prod.fst ++ entries.map Prod.fst).Nodup) :
    (dict.insertAll entries).entries.Perm (dict.entries ++ entries) := by
  induction entries generalizing dict with
  | nil => rw [insertAll_nil, List.append_nil]
  | cons entry rest ih =>
    rw [List.map_cons] at h
    have hnew : entry.1 ∉ dict.entries.map Prod.fst := fun hmem =>
      (List.nodup_append.1 h).2.2 _ hmem _ (List.mem_cons_self ..) rfl
    have hinsert : (dict.insert entry.1 entry.2).entries.Perm (entry :: dict.entries) :=
      insertEntry_perm hnew
    have hmiddle : (dict.entries.map Prod.fst ++ entry.1 :: rest.map Prod.fst).Perm
        (entry.1 :: (dict.entries.map Prod.fst ++ rest.map Prod.fst)) := List.perm_middle
    have hrest : ((dict.insert entry.1 entry.2).entries.map Prod.fst ++ rest.map Prod.fst).Nodup :=
      ((hinsert.map Prod.fst).append_right _).nodup_iff.2 (hmiddle.nodup_iff.1 h)
    rw [insertAll_cons]
    refine (ih _ hrest).trans ?_
    exact (hinsert.append_right rest).trans List.perm_middle.symm

/-- A dictionary of entries whose names are different has all of them. -/
theorem entries_ofList_perm {entries : List (String × α)} (h : (entries.map Prod.fst).Nodup) :
    (ofList entries).entries.Perm entries := entries_insertAll_perm empty h

end Dict

end SingleTable
