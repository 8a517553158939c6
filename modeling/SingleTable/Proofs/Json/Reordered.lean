import Mathlib.Data.List.Perm.Basic
import SingleTable.Proofs.Model.Codec
import SingleTable.Proofs.Value.Codec

/-!
# Documents with their members in any order

A dictionary has no order of its own, so a document that is written for one may list its members in any order.
Two documents are `Tree.Reordered` if they differ in nothing but the order in which their objects list their
members, at any depth. A reader that makes a value of a document in every order `ReadsAs` the value.

Dictionaries are read so if their values are (`readEntries_of_reordered`), and attribute values are
(`Value.readsAs_toTree`). A reader of records finds under every name what was written there, in some order
(`exists_finds`), because its fields have different names.
-/

set_option autoImplicit false

namespace SingleTable

open Json

namespace Json.Tree

/-! ## Reordered documents -/

mutual

/-- A tree is another one with the members of its objects in any order. -/
def Reordered : Tree → Tree → Prop
  | .array items, tree => ∃ others, tree = .array others ∧ ItemsReordered items others
  | .object members, tree =>
    ∃ alike listed, tree = .object listed ∧ MembersReordered members alike ∧ alike.Perm listed
  | scalar, tree => tree = scalar

/-- The items of an array in their order, each of them reordered. -/
def ItemsReordered : List Tree → List Tree → Prop
  | [], others => others = []
  | item :: rest, others =>
    ∃ other more, others = other :: more ∧ Reordered item other ∧ ItemsReordered rest more

/-- The members of an object in their order, the value of each of them reordered. -/
def MembersReordered : List (Option String × Tree) → List (Option String × Tree) → Prop
  | [], others => others = []
  | (name, value) :: rest, others =>
    ∃ other more, others = (name, other) :: more ∧ Reordered value other ∧ MembersReordered rest more

end

mutual

/-- The order of a document is one of its orders. -/
theorem Reordered.refl (tree : Tree) : tree.Reordered tree := by
  cases tree with
  | array items => exact ⟨items, rfl, ItemsReordered.refl items⟩
  | object members => exact ⟨members, members, rfl, MembersReordered.refl members, List.Perm.refl _⟩
  | _ => rfl

theorem ItemsReordered.refl (items : List Tree) : ItemsReordered items items := by
  cases items with
  | nil => rfl
  | cons item rest => exact ⟨item, rest, rfl, Reordered.refl item, ItemsReordered.refl rest⟩

theorem MembersReordered.refl (members : List (Option String × Tree)) :
    MembersReordered members members := by
  cases members with
  | nil => rfl
  | cons member rest =>
    exact ⟨member.2, rest, rfl, Reordered.refl member.2, MembersReordered.refl rest⟩

end

mutual

/-- A document has a fault in every order or in none. -/
theorem Reordered.intact (tree : Tree) (hintact : tree.intact = true) {other : Tree}
    (h : tree.Reordered other) : other.intact = true := by
  cases tree with
  | array items =>
    obtain ⟨others, rfl, hothers⟩ := h
    exact ItemsReordered.intact items hintact hothers
  | object members =>
    obtain ⟨alike, listed, rfl, halike, hperm⟩ := h
    have hall := intactMembers_iff.1 (MembersReordered.intact members hintact halike)
    exact intactMembers_iff.2 fun member hmember => hall member (hperm.mem_iff.2 hmember)
  | broken => cases hintact
  | _ =>
    cases h
    rfl

theorem ItemsReordered.intact (items : List Tree) (hintact : intactItems items = true)
    {others : List Tree} (h : ItemsReordered items others) : intactItems others = true := by
  cases items with
  | nil =>
    cases h
    rfl
  | cons item rest =>
    obtain ⟨other, more, rfl, hother, hmore⟩ := h
    rw [intactItems, Bool.and_eq_true] at hintact ⊢
    exact ⟨Reordered.intact item hintact.1 hother, ItemsReordered.intact rest hintact.2 hmore⟩

theorem MembersReordered.intact (members : List (Option String × Tree))
    (hintact : intactMembers members = true) {others : List (Option String × Tree)}
    (h : MembersReordered members others) : intactMembers others = true := by
  cases members with
  | nil =>
    cases h
    rfl
  | cons member rest =>
    obtain ⟨other, more, rfl, hother, hmore⟩ := h
    rw [intactMembers, Bool.and_eq_true] at hintact ⊢
    exact ⟨Reordered.intact member.2 hintact.1 hother, MembersReordered.intact rest hintact.2 hmore⟩

end

/-- A document without containers has one order. -/
theorem Reordered.eq_of_depth {tree other : Tree} (h : tree.Reordered other) (hdepth : tree.depth = 0) :
    other = tree := by
  cases tree with
  | array items => cases hdepth
  | object members => cases hdepth
  | _ => exact h

/-- An array without containers has one order. -/
theorem ItemsReordered.eq_of_depth {items others : List Tree} (h : ItemsReordered items others)
    (hdepth : itemsDepth items = 0) : others = items := by
  induction items generalizing others with
  | nil => exact h
  | cons item rest ih =>
    obtain ⟨other, more, rfl, hother, hmore⟩ := h
    rw [itemsDepth, Nat.max_eq_zero_iff] at hdepth
    rw [hother.eq_of_depth hdepth.1, ih hmore hdepth.2]

/-! ## Reordered objects -/

section Listed

variable {β : Type} {name : β → String} {write : β → Tree} {items : List β}

theorem forall₂_of_membersReordered {alike : List (Option String × Tree)}
    (h : MembersReordered (items.map fun item => (some (name item), write item)) alike) :
    List.Forall₂ (fun member item => ∃ other, member = (some (name item), other) ∧
      (write item).Reordered other) alike items := by
  induction items generalizing alike with
  | nil =>
    cases h
    exact .nil
  | cons item rest ih =>
    obtain ⟨other, more, rfl, hother, hmore⟩ := h
    exact .cons ⟨other, rfl, hother⟩ (ih hmore)

theorem exists_named_of_forall₂ {listed : List (Option String × Tree)} {order : List β}
    (h : List.Forall₂ (fun member item => ∃ other, member = (some (name item), other) ∧
      (write item).Reordered other) listed order) :
    ∃ named : List (String × Tree), listed = named.map (fun member => (some member.1, member.2)) ∧
      List.Forall₂ (fun item member => name item = member.1 ∧ (write item).Reordered member.2)
        order named := by
  induction h with
  | nil => exact ⟨[], rfl, .nil⟩
  | cons hhead _ ih =>
    obtain ⟨other, rfl, hother⟩ := hhead
    obtain ⟨named, rfl, hnamed⟩ := ih
    exact ⟨(_, other) :: named, rfl, .cons ⟨rfl, hother⟩ hnamed⟩

/-- A reordered object lists the written members in some order, the value of each of them reordered. -/
theorem Reordered.exists_listed {tree : Tree}
    (h : (record (items.map fun item => (name item, write item))).Reordered tree) :
    ∃ (order : List β) (listed : List (String × Tree)), tree = record listed ∧ order.Perm items ∧
      List.Forall₂ (fun item member => name item = member.1 ∧ (write item).Reordered member.2)
        order listed := by
  rw [record, List.map_map] at h
  obtain ⟨alike, listed, rfl, halike, hperm⟩ := h
  obtain ⟨order, hlisted, horder⟩ :=
    List.perm_comp_forall₂ hperm.symm (forall₂_of_membersReordered halike)
  obtain ⟨named, rfl, hnamed⟩ := exists_named_of_forall₂ hlisted
  exact ⟨order, named, rfl, horder, hnamed⟩

end Listed

/-- An object of one member is reordered inside the member. -/
theorem Reordered.exists_tagged {tag : String} {content tree : Tree}
    (h : (record [(tag, content)]).Reordered tree) :
    ∃ other, tree = record [(tag, other)] ∧ content.Reordered other := by
  obtain ⟨alike, listed, rfl, ⟨other, more, rfl, hother, hmore⟩, hperm⟩ := h
  cases hmore
  cases List.singleton_perm.1 hperm
  exact ⟨other, rfl, hother⟩

end Json.Tree

namespace Json

/-! ## Reading in every order -/

section ReadsAs

variable {α : Type} {read : Tree → Read α} {tree : Tree} {value : α}

/-- A reader makes a value of a document, in whatever order its objects list their members. -/
def ReadsAs (read : Tree → Read α) (tree : Tree) (value : α) : Prop :=
  ∀ other, tree.Reordered other → read other = .ok value

/-- A document without containers is read as in its only order. -/
theorem ReadsAs.of_depth (hdepth : tree.depth = 0) (h : read tree = .ok value) :
    ReadsAs read tree value := by
  intro other hother
  rwa [hother.eq_of_depth hdepth]

/-- What is read where `null` is rejected is read where it may stand for nothing. -/
theorem ReadsAs.some (h : ReadsAs read tree value) (hnull : read .null = .error .malformed) :
    ReadsAs (readOptional read) tree (some value) := by
  intro other hother
  have hread := h other hother
  cases other with
  | null =>
    rw [hnull] at hread
    cases hread
  | _ => exact map_eq_ok_iff.2 ⟨value, hread, rfl⟩

end ReadsAs

/-! ## Dictionaries -/

section Dictionaries

variable {α : Type}

/-- Members that are read as entries are written into a dictionary in their order. -/
theorem readEntries_of_forall₂ {read : Tree → Read α} {entries : List (String × α)}
    {listed : List (String × Tree)}
    (h : List.Forall₂ (fun entry member => entry.1 = member.1 ∧ read member.2 = .ok entry.2)
      entries listed) (dict : Dict α) :
    readEntries read dict (listed.map fun member => (some member.1, member.2)) =
      .ok (dict.insertAll entries) := by
  induction h generalizing dict with
  | nil => rfl
  | @cons entry member entries listed hhead _ ih =>
    rw [List.map_cons, readEntries, hhead.2, ← hhead.1]
    exact ih (dict.insert entry.1 entry.2)

/-- The members that are written for a dictionary are read as the dictionary in every order, if each of its
values is. -/
theorem readEntries_of_reordered {read : Tree → Read α} {write : α → Tree} (dict : Dict α)
    (hread : ∀ entry ∈ dict.entries, ReadsAs read (write entry.2) entry.2) {tree : Tree}
    (h : (Tree.record (dict.entries.map fun entry => (entry.1, write entry.2))).Reordered tree) :
    ∃ members, tree = .object members ∧ readEntries read .empty members = .ok dict := by
  obtain ⟨order, listed, rfl, hperm, hlisted⟩ := h.exists_listed
  refine ⟨_, rfl, ?_⟩
  have hentries : List.Forall₂ (fun entry member => entry.1 = member.1 ∧ read member.2 = .ok entry.2)
      order listed := by
    refine ((List.forall₂_and_left (p := (· ∈ dict.entries)) _ _).2
      ⟨fun _ => hperm.mem_iff.1, hlisted⟩).imp ?_
    rintro entry member ⟨hmem, hname, hvalue⟩
    exact ⟨hname, hread entry hmem member.2 hvalue⟩
  have hnames : (order.map Prod.fst).Nodup := (hperm.map Prod.fst).nodup_iff.2 dict.increasing.nodup
  rw [readEntries_of_forall₂ hentries]
  exact congrArg Except.ok ((Dict.ofList_perm hperm hnames).trans dict.ofList_entries)

end Dictionaries

end Json

namespace Value

/-! ## Values -/

theorem entryTrees_eq_map (entries : List (String × Value)) :
    entryTrees entries = entries.map fun entry => (some entry.1, entry.2.toTree) := by
  induction entries with
  | nil => rfl
  | cons entry rest ih => rw [entryTrees, ih, List.map_cons]

/-- The entries of a map are read as those of a dictionary. -/
theorem readEntries_eq (depth : Nat) (dict : Dict Value) (members : List (Option String × Tree)) :
    readEntries depth dict.entries members =
      (Json.readEntries (read depth) dict members).map Dict.entries := by
  induction members generalizing dict with
  | nil => rfl
  | cons member rest ih =>
    obtain ⟨name, tree⟩ := member
    cases name with
    | none => rfl
    | some name =>
      rw [readEntries, Json.readEntries]
      cases read depth tree with
      | error rejection => rfl
      | ok value => exact ih (dict.insert name value)

mutual

/-- The document of a value is read as the value in every order, if the maps of the value are dictionaries and
the document is no deeper than the reader goes. -/
theorem readsAs_toTree (value : Value) (hordered : value.IsOrdered) {depth : Nat}
    (hdepth : value.toTree.depth ≤ depth) : ReadsAs (read depth) value.toTree value := by
  intro other hother
  have hread : read depth value.toTree = .ok value := by
    rw [read_toTree, if_pos hdepth, canonical_eq value hordered]
  -- Only lists and maps have documents with more than one order.
  cases value with
  | list items =>
    obtain ⟨content, rfl, others, rfl, hothers⟩ := hother.exists_tagged
    rw [toTree, Tree.depth_record_singleton, Tree.depth] at hdepth
    obtain ⟨depth, rfl⟩ : ∃ less, depth = less + 2 := ⟨depth - 2, by omega⟩
    have hitems : Tree.itemsDepth (itemTrees items) ≤ depth := by omega
    exact map_eq_ok_iff.2 ⟨items, readItems_of_reordered items hordered hitems hothers, rfl⟩
  | map entries =>
    obtain ⟨content, rfl, hcontent⟩ := hother.exists_tagged
    rw [toTree, Tree.depth_record_singleton, Tree.depth] at hdepth
    obtain ⟨depth, rfl⟩ : ∃ less, depth = less + 2 := ⟨depth - 2, by omega⟩
    have hentries : Tree.membersDepth (entryTrees entries) ≤ depth := by omega
    rw [entryTrees_eq_map] at hcontent
    obtain ⟨members, rfl, hmembers⟩ := readEntries_of_reordered ⟨entries, hordered.1⟩
      (readsAs_of_mem_entries entries hordered.2 hentries) (by rwa [Tree.record, List.map_map])
    refine map_eq_ok_iff.2 ⟨entries, (readEntries_eq depth .empty members).trans ?_, rfl⟩
    rw [hmembers]
    rfl
  | stringSet items =>
    obtain ⟨content, rfl, others, rfl, hothers⟩ := hother.exists_tagged
    rwa [hothers.eq_of_depth (Tree.itemsDepth_map (fun _ => rfl) items)]
  | numberSet items =>
    obtain ⟨content, rfl, others, rfl, hothers⟩ := hother.exists_tagged
    rwa [hothers.eq_of_depth (Tree.itemsDepth_map (fun _ => rfl) items)]
  | binarySet items =>
    obtain ⟨content, rfl, others, rfl, hothers⟩ := hother.exists_tagged
    rwa [hothers.eq_of_depth (Tree.itemsDepth_map (fun _ => rfl) items)]
  | _ =>
    obtain ⟨content, rfl, hcontent⟩ := hother.exists_tagged
    rwa [hcontent]

theorem readItems_of_reordered (items : List Value) (hordered : ItemsOrdered items) {depth : Nat}
    (hdepth : Tree.itemsDepth (itemTrees items) ≤ depth) {others : List Tree}
    (h : Tree.ItemsReordered (itemTrees items) others) : readItems depth others = .ok items := by
  cases items with
  | nil =>
    cases h
    rfl
  | cons item rest =>
    obtain ⟨other, more, rfl, hother, hmore⟩ := h
    rw [itemTrees, Tree.itemsDepth, Nat.max_le] at hdepth
    rw [readItems, readsAs_toTree item hordered.1 hdepth.1 other hother,
      readItems_of_reordered rest hordered.2 hdepth.2 hmore]
    rfl

theorem readsAs_of_mem_entries (entries : List (String × Value)) (hordered : EntriesOrdered entries)
    {depth : Nat} (hdepth : Tree.membersDepth (entryTrees entries) ≤ depth) :
    ∀ entry ∈ entries, ReadsAs (read depth) entry.2.toTree entry.2 := by
  cases entries with
  | nil => exact nofun
  | cons entry rest =>
    rw [entryTrees, Tree.membersDepth, Nat.max_le] at hdepth
    exact List.forall_mem_cons.2 ⟨readsAs_toTree entry.2 hordered.1 hdepth.1,
      readsAs_of_mem_entries rest hordered.2 hdepth.2⟩

end

end Value

namespace Json

/-! ## Records -/

section Records

variable {fields : List Field} {members found : List (String × Tree)} {depth : Nat}

theorem Tree.depth_record_le_iff :
    (Tree.record members).depth ≤ depth + 1 ↔ ∀ member ∈ members, member.2.depth ≤ depth := by
  rw [Tree.record, Tree.depth, Nat.add_le_add_iff_right]
  induction members with
  | nil => exact ⟨fun _ => nofun, fun _ => Nat.zero_le depth⟩
  | cons member rest ih =>
    rw [List.map_cons, Tree.membersDepth, Nat.max_le, List.forall_mem_cons, ih]

/-- The members that a record reader has found, beside those that were written. -/
structure Finds (depth : Nat) (members found : List (String × Tree)) : Prop where
  /-- Under every name stands what was written for it, in some order. -/
  reordered : ∀ name, Option.Rel Tree.Reordered (findEntry name members) (findEntry name found)
  /-- No member was written deeper than its reader goes. -/
  depth_le : ∀ member ∈ members, member.2.depth ≤ depth

theorem findEntry_of_forall₂ {order listed : List (String × Tree)}
    (h : List.Forall₂ (fun member other => member.1 = other.1 ∧ member.2.Reordered other.2) order listed)
    (name : String) :
    Option.Rel Tree.Reordered (findEntry name order) (findEntry name listed) := by
  induction h with
  | nil => exact .none
  | cons hhead _ ih =>
    rw [findEntry, findEntry, hhead.1]
    split
    · exact .some hhead.2
    · exact ih

/-- A record with members of its fields is read in every order, and each member is found under its name. -/
theorem exists_finds (hfields : (fields.map Field.name).Nodup)
    (hnames : (members.map Prod.fst).Sublist (fields.map Field.name))
    (hdepth : (Tree.record members).depth ≤ depth + 1) {tree : Tree}
    (h : (Tree.record members).Reordered tree) :
    ∃ found, readMembersOf fields (depth + 1) tree = .ok found ∧ Finds depth members found := by
  rw [← List.map_id' members] at h
  obtain ⟨order, found, rfl, hperm, hfound⟩ := h.exists_listed
  have hdistinct : (members.map Prod.fst).Nodup := hnames.nodup hfields
  have hsame : found.map Prod.fst = order.map Prod.fst := by
    rw [← List.forall₂_eq_eq_eq, List.forall₂_map_left_iff, List.forall₂_map_right_iff]
    exact (hfound.imp fun _ _ hmember => hmember.1.symm).flip
  have horder : (order.map Prod.fst).Nodup := (hperm.map Prod.fst).nodup_iff.2 hdistinct
  refine ⟨found, ?_, ?_, Tree.depth_record_le_iff.1 hdepth⟩
  · have hknown : ∀ part ∈ found, fields.any (·.name == part.1) = true := by
      intro part hpart
      have hmem : part.1 ∈ order.map Prod.fst := hsame ▸ List.mem_map_of_mem hpart
      obtain ⟨field, hfield, hname⟩ :=
        List.mem_map.1 (hnames.subset ((hperm.map Prod.fst).mem_iff.1 hmem))
      exact List.any_eq_true.2 ⟨field, hfield, beq_iff_eq.2 hname⟩
    have hback := @readsBack_known Tree fields (fun _ tree => .ok tree) id (fun _ _ => False) found
      hknown (hsame ▸ horder) (fun _ _ => .of_eq_ok rfl) [] fun _ _ => List.not_mem_nil
    exact hback.eq_ok_iff.2 fun name ⟨_, _, hrepeats⟩ => hrepeats
  · intro name
    rw [← findEntry_perm hperm horder]
    exact findEntry_of_forall₂ hfound name

end Records

end Json

end SingleTable
