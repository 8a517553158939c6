import SingleTable.Proofs.Json.Documents
import SingleTable.Proofs.Text.Base64
import SingleTable.Value.Codec

/-!
# Values are read as they were written

The text of a value is read as the value (`values_round_trip`). The entries of a map are written as they are
listed and read into a dictionary, so what comes back is the canonical form of the value: the value itself if
its maps list the entries of a dictionary (`canonical_eq`), and one and the same for every order in which a
map lists its entries (`canonical_map_perm`). The bound on the depth is exact, since a deeper document is
rejected (`ofJson_toJson`).

Bytes are read from no other text than the one that is written for them. This holds for every document of a
binary value inside an accepted text, and not only at its top (`exists_read_of_holds`).
-/

set_option autoImplicit false

namespace SingleTable

open Json

/-! ## Depth -/

namespace Json.Tree

mutual

/-- The number of containers that are nested in each other at the deepest place of a tree. -/
def depth : Tree → Nat
  | .array items => itemsDepth items + 1
  | .object members => membersDepth members + 1
  | _ => 0

/-- The greatest depth of an item. -/
def itemsDepth : List Tree → Nat
  | [] => 0
  | item :: rest => max (depth item) (itemsDepth rest)

/-- The greatest depth of the value of a member. -/
def membersDepth : List (Option String × Tree) → Nat
  | [] => 0
  | (_, value) :: rest => max (depth value) (membersDepth rest)

end

theorem depth_record_singleton (name : String) (content : Tree) :
    (record [(name, content)]).depth = content.depth + 1 := by
  rw [record, List.map_singleton, depth, membersDepth, membersDepth, Nat.max_zero]

/-- An array of scalars has no deeper place than its items. -/
theorem itemsDepth_map {α : Type} {write : α → Tree} (hwrite : ∀ item, (write item).depth = 0)
    (items : List α) : itemsDepth (items.map write) = 0 := by
  induction items with
  | nil => rfl
  | cons item rest ih => rw [List.map_cons, itemsDepth, hwrite, ih, Nat.max_zero]

end Json.Tree

namespace Value

/-! ## Maps as dictionaries -/

mutual

/-- A value with the entries of every map in the order of a dictionary, a later entry winning over an
earlier one of its name. -/
def canonical : Value → Value
  | .list items => .list (canonicalItems items)
  | .map entries => .ofDict (.ofList (canonicalEntries entries))
  | value => value

/-- The items of a list, each with its maps as dictionaries. -/
def canonicalItems : List Value → List Value
  | [] => []
  | item :: rest => canonical item :: canonicalItems rest

/-- The entries of a map, each with the maps of its value as dictionaries. -/
def canonicalEntries : List (String × Value) → List (String × Value)
  | [] => []
  | (name, value) :: rest => (name, canonical value) :: canonicalEntries rest

end

mutual

/-- The entries of every map in a value are those of a dictionary. -/
def IsOrdered : Value → Prop
  | .list items => ItemsOrdered items
  | .map entries => Increasing entries ∧ EntriesOrdered entries
  | _ => True

/-- The maps in the items of a list are dictionaries. -/
def ItemsOrdered : List Value → Prop
  | [] => True
  | item :: rest => IsOrdered item ∧ ItemsOrdered rest

/-- The maps in the values of a map are dictionaries. -/
def EntriesOrdered : List (String × Value) → Prop
  | [] => True
  | (_, value) :: rest => IsOrdered value ∧ EntriesOrdered rest

end

theorem ofDict_ofList {entries : List (String × Value)} (h : Increasing entries) :
    ofDict (.ofList entries) = .map entries :=
  congrArg ofDict (Dict.ofList_entries ⟨entries, h⟩)

mutual

/-- A value with ordered maps stays as it is. -/
theorem canonical_eq (value : Value) (h : value.IsOrdered) : value.canonical = value := by
  cases value with
  | list items => rw [canonical, canonicalItems_eq items h]
  | map entries => rw [canonical, canonicalEntries_eq entries h.2, ofDict_ofList h.1]
  | _ => rfl

theorem canonicalItems_eq (items : List Value) (h : ItemsOrdered items) :
    canonicalItems items = items := by
  cases items with
  | nil => rfl
  | cons item rest => rw [canonicalItems, canonical_eq item h.1, canonicalItems_eq rest h.2]

theorem canonicalEntries_eq (entries : List (String × Value)) (h : EntriesOrdered entries) :
    canonicalEntries entries = entries := by
  cases entries with
  | nil => rfl
  | cons entry rest =>
    rw [canonicalEntries, canonical_eq entry.2 h.1, canonicalEntries_eq rest h.2]

end

theorem entriesOrdered_iff {entries : List (String × Value)} :
    EntriesOrdered entries ↔ ∀ entry ∈ entries, entry.2.IsOrdered := by
  induction entries with
  | nil => exact ⟨fun _ => nofun, fun _ => trivial⟩
  | cons entry rest ih => rw [EntriesOrdered, List.forall_mem_cons, ih]

mutual

/-- The canonical form of a value has ordered maps. -/
theorem isOrdered_canonical (value : Value) : value.canonical.IsOrdered := by
  cases value with
  | list items => exact itemsOrdered_canonicalItems items
  | map entries =>
    rw [canonical, ofDict, IsOrdered]
    refine ⟨(Dict.ofList _).increasing, entriesOrdered_iff.2 fun entry hentry => ?_⟩
    have hfound := Dict.mem_entries_iff.1 hentry
    rw [Dict.get?_ofList] at hfound
    exact entriesOrdered_iff.1 (entriesOrdered_canonicalEntries entries) _
      (List.mem_reverse.1 (mem_of_findEntry hfound))
  | _ => trivial

theorem itemsOrdered_canonicalItems (items : List Value) : ItemsOrdered (canonicalItems items) := by
  cases items with
  | nil => trivial
  | cons item rest => exact ⟨isOrdered_canonical item, itemsOrdered_canonicalItems rest⟩

theorem entriesOrdered_canonicalEntries (entries : List (String × Value)) :
    EntriesOrdered (canonicalEntries entries) := by
  cases entries with
  | nil => trivial
  | cons entry rest => exact ⟨isOrdered_canonical entry.2, entriesOrdered_canonicalEntries rest⟩

end

/-- The maps of a value are dictionaries exactly if the value is its canonical form. -/
theorem isOrdered_iff {value : Value} : value.IsOrdered ↔ value.canonical = value := by
  constructor
  · exact canonical_eq value
  · intro h
    rw [← h]
    exact isOrdered_canonical value

instance (value : Value) : Decidable value.IsOrdered := decidable_of_iff _ isOrdered_iff.symm

theorem canonicalEntries_eq_map (entries : List (String × Value)) :
    canonicalEntries entries = entries.map fun entry => (entry.1, entry.2.canonical) := by
  induction entries with
  | nil => rfl
  | cons entry rest ih => rw [canonicalEntries, ih, List.map_cons]

/-- The order in which the entries of a map are listed leaves no trace in its canonical form. -/
theorem canonical_map_perm {left right : List (String × Value)} (h : left.Perm right)
    (hnames : (left.map Prod.fst).Nodup) : (map left).canonical = (map right).canonical := by
  have hleft : ((canonicalEntries left).map Prod.fst).Nodup := by
    rwa [canonicalEntries_eq_map, List.map_map]
  rw [canonical, canonical]
  refine congrArg ofDict (Dict.ofList_perm ?_ hleft)
  rw [canonicalEntries_eq_map, canonicalEntries_eq_map]
  exact h.map _

/-! ## Documents of values -/

theorem intact_tagged {tag : String} {content : Tree} (h : content.intact = true) :
    (Tree.record [(tag, content)]).intact = true :=
  Tree.intact_record_iff.2 (List.forall_mem_singleton.2 h)

theorem intact_map {α : Type} {write : α → Tree} (hwrite : ∀ item, (write item).intact = true)
    (items : List α) : (Tree.array (items.map write)).intact = true :=
  Tree.intactItems_iff.2 (List.forall_mem_map.2 fun item _ => hwrite item)

mutual

/-- The document of a value has no fault. -/
theorem intact_toTree (value : Value) : value.toTree.intact = true := by
  cases value with
  | stringSet items => exact intact_tagged (intact_map (fun _ => rfl) items)
  | numberSet items => exact intact_tagged (intact_map (fun _ => rfl) items)
  | binarySet items => exact intact_tagged (intact_map (fun _ => rfl) items)
  | list items => exact intact_tagged (intactItems_itemTrees items)
  | map entries => exact intact_tagged (intactMembers_entryTrees entries)
  | _ => rfl

theorem intactItems_itemTrees (items : List Value) : Tree.intactItems (itemTrees items) = true := by
  cases items with
  | nil => rfl
  | cons item rest =>
    rw [itemTrees, Tree.intactItems, intact_toTree item, intactItems_itemTrees rest, Bool.and_self]

theorem intactMembers_entryTrees (entries : List (String × Value)) :
    Tree.intactMembers (entryTrees entries) = true := by
  cases entries with
  | nil => rfl
  | cons entry rest =>
    rw [entryTrees, Tree.intactMembers, intact_toTree entry.2, intactMembers_entryTrees rest,
      Bool.and_self]

end

theorem readBytes_bytesText (bytes : List UInt8) : readBytes (.text (bytesText bytes)) = .ok bytes := by
  rw [readBytes, bytesText, String.toList_ofList, Text.Base64.decode_encode]

theorem mapM_map_eq_ok {α : Type} {read : Tree → Read α} {write : α → Tree}
    (h : ∀ item, read (write item) = .ok item) (items : List α) :
    (items.map write).mapM read = .ok items := by
  induction items with
  | nil => rfl
  | cons item rest ih =>
    rw [List.map_cons, List.mapM_cons, h, ih]
    rfl

/-- The array of a set is read as the set, if there is room for one more container. -/
theorem read_set {α : Type} (read : Tree → Read α) (write : α → Tree)
    (hread : ∀ item, read (write item) = .ok item) (hdepth : ∀ item, (write item).depth = 0)
    (make : List α → Value) (items : List α) (depth : Nat) :
    (readSet read depth (.array (items.map write))).map make =
      if (Tree.array (items.map write)).depth ≤ depth then .ok (make items) else .error .malformed := by
  rw [Tree.depth, Tree.itemsDepth_map hdepth]
  cases depth with
  | zero => rfl
  | succ depth =>
    rw [readSet, mapM_map_eq_ok hread, if_pos (Nat.le_add_left 1 depth)]
    rfl

mutual

/-- The document of a value is read as its canonical form, if it is no deeper than the reader goes. -/
theorem read_toTree (value : Value) (depth : Nat) :
    read depth value.toTree =
      if value.toTree.depth ≤ depth then .ok value.canonical else .error .malformed := by
  -- The object of a value takes one level of the depth, and a collection in it takes a second one.
  cases depth with
  | zero =>
    rw [if_neg]
    · cases value <;> rfl
    · cases value <;> rw [toTree, Tree.depth_record_singleton] <;> exact Nat.not_succ_le_zero _
  | succ depth =>
    cases value with
    | string text => rfl
    | number digits => rfl
    | binary bytes =>
      show (readBytes (.text (bytesText bytes))).map Value.binary = _
      rw [readBytes_bytesText]
      rfl
    | stringSet items =>
      simp only [toTree, Tree.depth_record_singleton, Nat.add_le_add_iff_right]
      exact read_set readText .text (fun _ => rfl) (fun _ => rfl) _ items depth
    | numberSet items =>
      simp only [toTree, Tree.depth_record_singleton, Nat.add_le_add_iff_right]
      exact read_set readText .text (fun _ => rfl) (fun _ => rfl) _ items depth
    | binarySet items =>
      simp only [toTree, Tree.depth_record_singleton, Nat.add_le_add_iff_right]
      exact read_set readBytes _ readBytes_bytesText (fun _ => rfl) _ items depth
    | boolean value => rfl
    | null value => rfl
    | list items =>
      simp only [toTree, Tree.depth_record_singleton, Nat.add_le_add_iff_right, Tree.depth]
      cases depth with
      | zero => rfl
      | succ depth =>
        show (readItems depth (itemTrees items)).map Value.list = _
        rw [readItems_itemTrees items depth]
        simp only [Nat.add_le_add_iff_right]
        split <;> rfl
    | map entries =>
      simp only [toTree, Tree.depth_record_singleton, Nat.add_le_add_iff_right, Tree.depth]
      cases depth with
      | zero => rfl
      | succ depth =>
        show (readEntries depth Dict.empty.entries (entryTrees entries)).map Value.map = _
        rw [readEntries_entryTrees entries depth .empty]
        simp only [Nat.add_le_add_iff_right]
        split <;> rfl

theorem readItems_itemTrees (items : List Value) (depth : Nat) :
    readItems depth (itemTrees items) =
      if Tree.itemsDepth (itemTrees items) ≤ depth then .ok (canonicalItems items)
      else .error .malformed := by
  cases items with
  | nil => rfl
  | cons item rest =>
    rw [itemTrees, readItems, Tree.itemsDepth, read_toTree item, readItems_itemTrees rest]
    by_cases hitem : item.toTree.depth ≤ depth
    · by_cases hrest : Tree.itemsDepth (itemTrees rest) ≤ depth
      · rw [if_pos hitem, if_pos hrest, if_pos (Nat.max_le.2 ⟨hitem, hrest⟩)]
        rfl
      · rw [if_pos hitem, if_neg hrest, if_neg fun hmax => hrest (Nat.max_le.1 hmax).2]
        rfl
    · rw [if_neg hitem, if_neg fun hmax => hitem (Nat.max_le.1 hmax).1]
      rfl

theorem readEntries_entryTrees (entries : List (String × Value)) (depth : Nat) (dict : Dict Value) :
    readEntries depth dict.entries (entryTrees entries) =
      if Tree.membersDepth (entryTrees entries) ≤ depth then
        .ok (dict.insertAll (canonicalEntries entries)).entries
      else .error .malformed := by
  cases entries with
  | nil => rfl
  | cons entry rest =>
    have hmore := readEntries_entryTrees rest depth (dict.insert entry.1 entry.2.canonical)
    rw [entryTrees, readEntries, Tree.membersDepth, read_toTree entry.2]
    by_cases hentry : entry.2.toTree.depth ≤ depth
    · rw [if_pos hentry]
      refine hmore.trans ?_
      by_cases hrest : Tree.membersDepth (entryTrees rest) ≤ depth
      · rw [if_pos hrest, if_pos (Nat.max_le.2 ⟨hentry, hrest⟩)]
        rfl
      · rw [if_neg hrest, if_neg fun hmax => hrest (Nat.max_le.1 hmax).2]
    · rw [if_neg hentry, if_neg fun hmax => hentry (Nat.max_le.1 hmax).1]
      rfl

end

/-! ## Accepted documents -/

/-- A document of a value inside another one: the document itself, or one inside an item of a list or the
value of an entry of a map. -/
inductive Holds : Tree → Tree → Prop
  | self (tree : Tree) : Holds tree tree
  | item {items : List Tree} {item inner : Tree} (hmem : item ∈ items) (hinner : Holds item inner) :
      Holds (.object [(some "L", .array items)]) inner
  | entry {members : List (Option String × Tree)} {member : Option String × Tree} {inner : Tree}
      (hmem : member ∈ members) (hinner : Holds member.2 inner) :
      Holds (.object [(some "M", .object members)]) inner

theorem exists_read_of_readItems {depth : Nat} {items : List Tree} {values : List Value}
    (h : readItems depth items = .ok values) : ∀ item ∈ items, ∃ value, read depth item = .ok value := by
  induction items generalizing values with
  | nil => exact nofun
  | cons item rest ih =>
    rw [readItems] at h
    obtain ⟨value, hvalue, h⟩ := bind_eq_ok_iff.1 h
    obtain ⟨more, hmore, -⟩ := bind_eq_ok_iff.1 h
    exact List.forall_mem_cons.2 ⟨⟨value, hvalue⟩, ih hmore⟩

theorem exists_read_of_readEntries {depth : Nat} {members : List (Option String × Tree)}
    {before after : List (String × Value)} (h : readEntries depth before members = .ok after) :
    ∀ member ∈ members, ∃ value, read depth member.2 = .ok value := by
  induction members generalizing before with
  | nil => exact nofun
  | cons member rest ih =>
    obtain ⟨name, tree⟩ := member
    cases name with
    | none =>
      rw [readEntries] at h
      cases h
    | some name =>
      rw [readEntries] at h
      obtain ⟨value, hvalue, hmore⟩ := bind_eq_ok_iff.1 h
      exact List.forall_mem_cons.2 ⟨⟨value, hvalue⟩, ih hmore⟩

/-- What is accepted holds only documents that are accepted. -/
theorem exists_read_of_holds {tree inner : Tree} (hholds : Holds tree inner) {depth : Nat} {value : Value}
    (h : read depth tree = .ok value) : ∃ depth value, read depth inner = .ok value := by
  induction hholds generalizing depth value with
  | self tree => exact ⟨depth, value, h⟩
  | item hmem _ ih =>
    match depth, h with
    | depth + 2, h =>
      obtain ⟨values, hvalues, -⟩ := map_eq_ok_iff.1 h
      obtain ⟨value, hvalue⟩ := exists_read_of_readItems hvalues _ hmem
      exact ih hvalue
  | entry hmem _ ih =>
    match depth, h with
    | depth + 2, h =>
      obtain ⟨entries, hentries, -⟩ := map_eq_ok_iff.1 h
      obtain ⟨value, hvalue⟩ := exists_read_of_readEntries hentries _ hmem
      exact ih hvalue

/-- A text of bytes is accepted only as it is written. -/
theorem eq_text_of_readBytes {tree : Tree} {bytes : List UInt8} (h : readBytes tree = .ok bytes) :
    tree = .text (bytesText bytes) := by
  cases tree with
  | text text =>
    rw [readBytes] at h
    cases hdecode : Text.Base64.decode text.toList with
    | none =>
      rw [hdecode] at h
      cases h
    | some found =>
      rw [hdecode] at h
      cases h
      rw [bytesText, ← Text.Base64.eq_encode_of_decode hdecode, String.ofList_toList]
  | _ => cases h

theorem eq_map_of_mapM_readBytes {items : List Tree} {all : List (List UInt8)}
    (h : items.mapM readBytes = .ok all) : items = all.map fun bytes => .text (bytesText bytes) := by
  induction items generalizing all with
  | nil =>
    cases h
    rfl
  | cons item rest ih =>
    rw [List.mapM_cons] at h
    obtain ⟨bytes, hbytes, h⟩ := bind_eq_ok_iff.1 h
    obtain ⟨more, hmore, h⟩ := bind_eq_ok_iff.1 h
    cases h
    rw [List.map_cons, ← ih hmore, eq_text_of_readBytes hbytes]

/-- The document of an accepted binary value has the text of its bytes. -/
theorem exists_bytes_of_read {depth : Nat} {content : Tree} {value : Value}
    (h : read depth (.object [(some "B", content)]) = .ok value) :
    ∃ bytes, content = .text (bytesText bytes) ∧ value = .binary bytes := by
  cases depth with
  | zero => cases h
  | succ depth =>
    obtain ⟨bytes, hbytes, rfl⟩ := map_eq_ok_iff.1 h
    exact ⟨bytes, eq_text_of_readBytes hbytes, rfl⟩

/-- The document of an accepted set of binary values has the texts of their bytes. -/
theorem exists_items_of_read {depth : Nat} {content : Tree} {value : Value}
    (h : read depth (.object [(some "BS", content)]) = .ok value) :
    ∃ items, content = .array (items.map fun bytes => .text (bytesText bytes)) ∧
      value = .binarySet items := by
  cases depth with
  | zero => cases h
  | succ depth =>
    obtain ⟨all, hall, rfl⟩ := map_eq_ok_iff.1 h
    match depth, content, hall with
    | depth + 1, .array items, hall => exact ⟨all, congrArg Tree.array (eq_map_of_mapM_readBytes hall), rfl⟩

/-! ## Round trips -/

/-- The text of a value is read as its canonical form, if it is no deeper than the reader goes. -/
theorem ofJson_toJson (value : Value) :
    ofJson value.toJson =
      if value.toTree.depth ≤ depthLimit then .ok value.canonical else .error .malformed := by
  rw [ofJson, toJson, readDocument_toText read (intact_toTree value), read_toTree]

/-- **Values round trip.** The text of a value is read as the value with the entries of each map in the
order of a dictionary, so as the value itself if its maps are dictionaries. In every accepted text, wherever
the document of a binary value or of a set of them stands, it has the texts that are written for the bytes it
is read as. -/
theorem values_round_trip :
    (∀ value : Value, value.toTree.depth ≤ depthLimit →
      ofJson value.toJson = .ok value.canonical ∧
        (value.IsOrdered → ofJson value.toJson = .ok value)) ∧
    (∀ (text : String) (value : Value), ofJson text = .ok value → ∀ content : Tree,
      (Holds (Document.ofText text).tree (.object [(some "B", content)]) →
        ∃ depth bytes, read depth (.object [(some "B", content)]) = .ok (.binary bytes) ∧
          content = .text (bytesText bytes)) ∧
      (Holds (Document.ofText text).tree (.object [(some "BS", content)]) →
        ∃ depth items, read depth (.object [(some "BS", content)]) = .ok (.binarySet items) ∧
          content = .array (items.map fun bytes => .text (bytesText bytes)))) := by
  constructor
  · intro value hdepth
    have hread : ofJson value.toJson = .ok value.canonical := by rw [ofJson_toJson, if_pos hdepth]
    refine ⟨hread, fun hordered => ?_⟩
    rw [hread, canonical_eq value hordered]
  · intro text value haccepted content
    have hread := (readDocument_eq_ok_iff.1 haccepted).1
    constructor
    · intro hholds
      obtain ⟨depth, found, hfound⟩ := exists_read_of_holds hholds hread
      obtain ⟨bytes, hbytes, rfl⟩ := exists_bytes_of_read hfound
      exact ⟨depth, bytes, hfound, hbytes⟩
    · intro hholds
      obtain ⟨depth, found, hfound⟩ := exists_read_of_holds hholds hread
      obtain ⟨items, hitems, rfl⟩ := exists_items_of_read hfound
      exact ⟨depth, items, hfound, hitems⟩

/-- A value with the marks of strings, empty collections, and bytes with every padding. -/
def album : Value :=
  .map [("", .list []), ("\"\\\n\x01", .binary [255]),
    ("photos", .list [.binary [1, 2], .binarySet [[], [1, 2, 3]], .map []]), ("📷", .null true)]

/-- The text of an album is read as the album, and its byte stands in it with two padding characters. -/
theorem values_round_trip_album :
    (album.toTree.depth ≤ depthLimit ∧ album.IsOrdered ∧ ofJson album.toJson = .ok album) ∧
    (Holds (Document.ofText album.toJson).tree (.object [(some "B", .text "/w==")]) ∧
      ∃ depth bytes, read depth (.object [(some "B", .text "/w==")]) = .ok (.binary bytes) ∧
        Tree.text "/w==" = .text (bytesText bytes)) := by
  have hdepth : album.toTree.depth ≤ depthLimit := by decide
  have hordered : album.IsOrdered := by decide
  have haccepted : ofJson album.toJson = .ok album := (values_round_trip.1 album hdepth).2 hordered
  have hholds : Holds (Document.ofText album.toJson).tree (.object [(some "B", .text "/w==")]) := by
    rw [toJson, ofText_toText (intact_toTree album)]
    exact .entry (.tail _ (.head _)) (.self _)
  exact ⟨⟨hdepth, hordered, haccepted⟩, hholds,
    (values_round_trip.2 album.toJson album haccepted _).1 hholds⟩

end Value

end SingleTable
