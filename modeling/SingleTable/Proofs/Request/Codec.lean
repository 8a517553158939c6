import SingleTable.Proofs.Json.Reordered
import SingleTable.Request.Codec

/-!
# Requests are read as they were written

A request is written as an object that leaves out what the request does not ask for, and its reader puts back
for an absent member what the writer left out. So the wire form of each of the six kinds of requests is read as
the very request, and no two requests of a kind have a wire form in common (`requests_round_trip`). Both hold
for every order in which the objects of a document list their members, since a dictionary is written in any.

What was written and what is found are compared once for each way of writing a member: one that is always there
(`Finds.text` and `Finds.values`), one that may be absent (`Finds.optional`) and a dictionary that may be empty
(`Finds.withDefault`). A kind of requests is then the list of its members, once as they are written
(`writes_members`) and once as they are read (`readsAs_members`).
-/

set_option autoImplicit false

namespace SingleTable

open Json

/-! ## Single members -/

theorem readsAs_text (text : String) : ReadsAs readText (.text text) text := .of_depth rfl rfl

theorem readsAs_boolean (value : Bool) : ReadsAs readBoolean (.boolean value) value := .of_depth rfl rfl

theorem readInt32_int32Tree (value : Int32) : readInt32 (int32Tree value) = .ok value := by
  have hlower : -2147483648 ≤ value.toInt := value.le_toInt
  have hupper : value.toInt < 2147483648 := value.toInt_lt
  rw [int32Tree, Tree.number]
  by_cases hnegative : value.toInt < 0
  · have hmagnitude : -(value.toInt.natAbs : Int) = value.toInt := by omega
    rw [decide_eq_true hnegative, readInt32, if_pos ⟨by omega, by omega⟩, hmagnitude, Int32.ofInt_toInt]
  · have hmagnitude : (value.toInt.natAbs : Int) = value.toInt := by omega
    rw [decide_eq_false hnegative, readInt32, if_pos (by omega), ← Int32.ofInt_eq_ofNat, hmagnitude,
      Int32.ofInt_toInt]

theorem readsAs_int32Tree (value : Int32) : ReadsAs readInt32 (int32Tree value) value :=
  .of_depth rfl (readInt32_int32Tree value)

theorem readsAs_returnMode (depth : Nat) (mode : ReturnMode) :
    ReadsAs (readTag ReturnMode.ofTag? depth) (.text mode.tag) mode := by
  refine .of_depth rfl ?_
  rw [readTag, ReturnMode.ofTag?_tag]

theorem readsAs_selectMode (depth : Nat) (mode : SelectMode) :
    ReadsAs (readTag SelectMode.ofTag? depth) (.text mode.tag) mode := by
  refine .of_depth rfl ?_
  rw [readTag, SelectMode.ofTag?_tag]

theorem readTag_null {α : Type} (tag? : String → Option α) (depth : Nat) :
    readTag tag? depth .null = .error .malformed := by
  cases depth <;> rfl

/-! ## Dictionaries -/

/-- The document of a dictionary is read as the dictionary in every order, if its values are. -/
theorem readsAs_dictTree {α : Type} {read : Nat → Tree → Read α} {write : α → Tree} {dict : Dict α}
    (hread : ∀ entry ∈ dict.entries, ∀ depth, (write entry.2).depth ≤ depth →
      ReadsAs (read depth) (write entry.2) entry.2)
    {depth : Nat} (hdepth : (dictTree write dict).depth ≤ depth) :
    ReadsAs (readDict read depth) (dictTree write dict) dict := by
  intro other hother
  cases depth with
  | zero => exact absurd hdepth (Nat.not_succ_le_zero _)
  | succ depth =>
    rw [dictTree, Tree.depth_record_le_iff, List.forall_mem_map] at hdepth
    obtain ⟨members, rfl, hmembers⟩ := readEntries_of_reordered dict
      (fun entry hentry => hread entry hentry depth (hdepth entry hentry)) hother
    exact hmembers

theorem readsAs_names {dict : Dict String} {depth : Nat}
    (hdepth : (dictTree Tree.text dict).depth ≤ depth) :
    ReadsAs (readNames depth) (dictTree .text dict) dict :=
  readsAs_dictTree (fun entry _ _ _ => readsAs_text entry.2) hdepth

theorem readsAs_values {dict : Dict Value} (hordered : (Value.ofDict dict).IsOrdered) {depth : Nat}
    (hdepth : (dictTree Value.toTree dict).depth ≤ depth) :
    ReadsAs (readValues depth) (dictTree Value.toTree dict) dict := by
  refine readsAs_dictTree (fun entry hentry _ hentryDepth => ?_) hdepth
  have hentryOrdered : entry.2.IsOrdered := Value.entriesOrdered_iff.1 hordered.2 entry hentry
  exact Value.readsAs_toTree entry.2 hentryOrdered hentryDepth

/-! ## Written members -/

section Written

variable {α : Type} {names kept : List String} {members : List (String × Tree)}

@[simp] theorem findEntry_memberOf (name other : String) (write : α → Tree) (value : Option α) :
    findEntry name (memberOf other write value) = if name = other then value.map write else none := by
  cases value with
  | none => rw [memberOf, findEntry, Option.map_none, ite_self]
  | some value => rw [memberOf, findEntry, findEntry, Option.map_some]

@[simp] theorem findEntry_dictMemberOf (name other : String) (write : α → Tree) (dict : Dict α) :
    findEntry name (dictMemberOf other write dict) =
      if name = other then if dict.isEmpty then none else some (dictTree write dict) else none := by
  rw [dictMemberOf]
  split
  · rw [findEntry, ite_self]
  · rw [findEntry, findEntry]

/-- A document that is written where there is something to write: it is neither `null` nor faulty, and it is
an empty object only under a name that is kept. -/
structure IsPresent (kept : List String) (member : String × Tree) : Prop where
  /-- The document has no fault. -/
  intact : member.2.intact = true
  /-- The document is not the one of nothing. -/
  ne_null : member.2 ≠ .null
  /-- An empty dictionary is written under the kept names only. -/
  kept : member.2 = .object [] → member.1 ∈ kept

/-- The members that are written for a request: some of the names, in their order, each with a document that
is present. -/
structure Writes (names kept : List String) (members : List (String × Tree)) : Prop where
  /-- The names stand in their order, each at most once. -/
  sublist : (members.map Prod.fst).Sublist names
  /-- Nothing is written for what the request does not ask for. -/
  present : ∀ member ∈ members, IsPresent kept member

theorem Writes.nil : Writes [] kept [] := ⟨List.Sublist.refl _, nofun⟩

theorem Writes.cons {member : String × Tree} (h : IsPresent kept member) (hrest : Writes names kept members) :
    Writes (member.1 :: names) kept (member :: members) :=
  ⟨hrest.sublist.cons_cons member.1, List.forall_mem_cons.2 ⟨h, hrest.present⟩⟩

theorem Writes.append {more : List String} {others : List (String × Tree)} (h : Writes names kept members)
    (hothers : Writes more kept others) : Writes (names ++ more) kept (members ++ others) where
  sublist := by
    rw [List.map_append]
    exact h.sublist.append hothers.sublist
  present := List.forall_mem_append.2 ⟨h.present, hothers.present⟩

theorem isPresent_text {name : String} (text : String) : IsPresent kept (name, .text text) :=
  ⟨rfl, Tree.noConfusion, Tree.noConfusion⟩

theorem isPresent_boolean {name : String} (value : Bool) : IsPresent kept (name, .boolean value) :=
  ⟨rfl, Tree.noConfusion, Tree.noConfusion⟩

theorem isPresent_int32Tree {name : String} (value : Int32) : IsPresent kept (name, int32Tree value) :=
  ⟨rfl, Tree.noConfusion, Tree.noConfusion⟩

theorem isPresent_returnMode {name : String} (mode : ReturnMode) : IsPresent kept (name, .text mode.tag) :=
  isPresent_text mode.tag

theorem isPresent_selectMode {name : String} (mode : SelectMode) : IsPresent kept (name, .text mode.tag) :=
  isPresent_text mode.tag

theorem intact_text (text : String) : (Tree.text text).intact = true := rfl

theorem isPresent_dictTree {name : String} {write : α → Tree}
    (hwrite : ∀ value, (write value).intact = true) {dict : Dict α}
    (hkept : dict.isEmpty = true → name ∈ kept) :
    IsPresent kept (name, dictTree write dict) where
  intact := Tree.intact_record_iff.2 (List.forall_mem_map.2 fun entry _ => hwrite entry.2)
  ne_null := Tree.noConfusion
  kept := by
    intro hempty
    apply hkept
    simpa [dictTree, Tree.record, Dict.isEmpty] using hempty

theorem writes_memberOf {name : String} {write : α → Tree}
    (hwrite : ∀ value, IsPresent kept (name, write value)) (value : Option α) :
    Writes [name] kept (memberOf name write value) := by
  cases value with
  | none => exact ⟨List.nil_sublist _, nofun⟩
  | some value => exact .cons (hwrite value) .nil

theorem writes_dictMemberOf {name : String} {write : α → Tree}
    (hwrite : ∀ value, (write value).intact = true) (dict : Dict α) :
    Writes [name] kept (dictMemberOf name write dict) := by
  rw [dictMemberOf]
  split
  · exact ⟨List.nil_sublist _, nofun⟩
  · rename_i hnonempty
    exact .cons (isPresent_dictTree hwrite fun hempty => absurd hempty hnonempty) .nil

end Written

/-! ## Found members -/

section Found

variable {α : Type} {depth : Nat} {members found : List (String × Tree)} {name : String}

/-- What was not written is not found. -/
theorem Json.Finds.findEntry_eq_none (h : Finds depth members found)
    (hwritten : findEntry name members = none) : findEntry name found = none := by
  have hfound := h.reordered name
  rw [hwritten] at hfound
  cases hlookup : findEntry name found with
  | none => rfl
  | some other =>
    rw [hlookup] at hfound
    cases hfound

/-- What was written is found, in some order. -/
theorem Json.Finds.exists_findEntry {tree : Tree} (h : Finds depth members found)
    (hwritten : findEntry name members = some tree) :
    ∃ other, findEntry name found = some other ∧ tree.Reordered other ∧ tree.depth ≤ depth := by
  have hfound := h.reordered name
  rw [hwritten] at hfound
  cases hlookup : findEntry name found with
  | none =>
    rw [hlookup] at hfound
    cases hfound
  | some other =>
    rw [hlookup] at hfound
    cases hfound with
    | some hother => exact ⟨other, rfl, hother, h.depth_le _ (mem_of_findEntry hwritten)⟩

/-- The text of a member that is always written is read. -/
theorem Json.Finds.text {value : String} (h : Finds depth members found)
    (hwritten : findEntry name members = some (.text value)) :
    required found name readText = .ok value := by
  obtain ⟨other, hlookup, hother, -⟩ := h.exists_findEntry hwritten
  rw [required, hlookup, hother]
  rfl

/-- The dictionary of a member that is always written is read. -/
theorem Json.Finds.values {dict : Dict Value} (h : Finds depth members found)
    (hwritten : findEntry name members = some (dictTree Value.toTree dict))
    (hordered : (Value.ofDict dict).IsOrdered) : required found name (readValues depth) = .ok dict := by
  obtain ⟨other, hlookup, hother, hdepth⟩ := h.exists_findEntry hwritten
  rw [required, hlookup]
  exact readsAs_values hordered hdepth other hother

/-- A member that is left out if it is absent is read, or is absent again. -/
theorem Json.Finds.optional {write : α → Tree} {read : Tree → Read α} {value : Option α}
    (h : Finds depth members found) (hwritten : findEntry name members = value.map write)
    (hread : ∀ value, ReadsAs read (write value) value) (hnull : read .null = .error .malformed) :
    optional found name read = .ok value := by
  rw [Json.optional, Json.withDefault]
  cases value with
  | none => rw [h.findEntry_eq_none hwritten]
  | some value =>
    obtain ⟨other, hlookup, hother, -⟩ := h.exists_findEntry hwritten
    rw [hlookup]
    exact (hread value).some hnull other hother

/-- A dictionary that is left out if it is empty is read, or is empty again. -/
theorem Json.Finds.withDefault {write : α → Tree} {read : Tree → Read (Dict α)} {dict : Dict α}
    (h : Finds depth members found)
    (hwritten : findEntry name members = if dict.isEmpty then none else some (dictTree write dict))
    (hread : (dictTree write dict).depth ≤ depth → ReadsAs read (dictTree write dict) dict) :
    withDefault found name .empty read = .ok dict := by
  rw [Json.withDefault]
  by_cases hempty : dict.isEmpty = true
  · rw [if_pos hempty] at hwritten
    rw [h.findEntry_eq_none hwritten, Dict.isEmpty_iff.1 hempty]
  · rw [if_neg hempty] at hwritten
    obtain ⟨other, hlookup, hother, hdepth⟩ := h.exists_findEntry hwritten
    rw [hlookup]
    exact hread hdepth other hother

end Found

/-! ## Kinds of requests -/

section Kinds

variable {R : Type}

/-- The requests of a kind come back from the wire. A request is written as the object of its members; `dicts`
gives the dictionaries of values in it, and `kept` names the one that is written even if it is empty. -/
structure RoundTrips (members : R → List (String × Tree)) (toJson : R → String)
    (read : Nat → Tree → Read R) (dicts : R → List (Dict Value)) (kept : List String) : Prop where
  /-- The text of a request is read as the request, if it is no deeper than the reader goes. -/
  back : ∀ request, (∀ dict ∈ dicts request, (Value.ofDict dict).IsOrdered) →
    (Tree.record (members request)).depth ≤ depthLimit → readDocument read (toJson request) = .ok request
  /-- So is the text of its document in any other order. -/
  back_reordered : ∀ request, (∀ dict ∈ dicts request, (Value.ofDict dict).IsOrdered) →
    (Tree.record (members request)).depth ≤ depthLimit →
    ∀ document, (Tree.record (members request)).Reordered document →
      readDocument read document.toText = .ok request
  /-- Two requests with documents of one text are the same, whatever their depth and the order of either. -/
  unique : ∀ request, (∀ dict ∈ dicts request, (Value.ofDict dict).IsOrdered) →
    ∀ other, (∀ dict ∈ dicts other, (Value.ofDict dict).IsOrdered) →
    ∀ document, (Tree.record (members request)).Reordered document →
    ∀ document', (Tree.record (members other)).Reordered document' →
      document.toText = document'.toText → request = other
  /-- What a request does not ask for is left out: no member is `null`, and none is an empty dictionary but
  the one that a request of the kind is about. -/
  present : ∀ request, ∀ member ∈ members request,
    member.2 ≠ .null ∧ (member.2 = .object [] → member.1 ∈ kept)

/-- A reader of records makes the request of its document in every order, if it does so of what it finds. -/
theorem readsAs_record {fields : List Field} {members : List (String × Tree)} {read : Nat → Tree → Read R}
    {next : Nat → List (String × Tree) → Read R} {request : R} {kept : List String}
    (hread : ∀ depth tree, read (depth + 1) tree = readMembersOf fields (depth + 1) tree >>= next depth)
    (hfields : (fields.map Field.name).Nodup) (hwrites : Writes (fields.map Field.name) kept members)
    (hnext : ∀ depth found, Finds depth members found → next depth found = .ok request)
    {depth : Nat} (hdepth : (Tree.record members).depth ≤ depth) :
    ReadsAs (read depth) (Tree.record members) request := by
  intro other hother
  cases depth with
  | zero => exact absurd hdepth (Nat.not_succ_le_zero _)
  | succ depth =>
    obtain ⟨found, hfound, hfinds⟩ := exists_finds hfields hwrites.sublist hdepth hother
    rw [hread, hfound]
    exact hnext depth found hfinds

/-- Requests round trip if their documents are present and are read at every depth that suffices. -/
theorem RoundTrips.of_readsAs {members : R → List (String × Tree)} {toJson : R → String}
    {read : Nat → Tree → Read R} {dicts : R → List (Dict Value)} {names kept : List String}
    (hjson : ∀ request, toJson request = (Tree.record (members request)).toText)
    (hwrites : ∀ request, Writes names kept (members request))
    (hread : ∀ request, (∀ dict ∈ dicts request, (Value.ofDict dict).IsOrdered) →
      ∀ depth, (Tree.record (members request)).depth ≤ depth →
        ReadsAs (read depth) (Tree.record (members request)) request) :
    RoundTrips members toJson read dicts kept := by
  have hintact : ∀ request document, (Tree.record (members request)).Reordered document →
      document.intact = true := by
    intro request document hdocument
    refine hdocument.intact _ (Tree.intact_record_iff.2 fun member hmember => ?_)
    exact ((hwrites request).present member hmember).intact
  have hback : ∀ request, (∀ dict ∈ dicts request, (Value.ofDict dict).IsOrdered) →
      (Tree.record (members request)).depth ≤ depthLimit →
      ∀ document, (Tree.record (members request)).Reordered document →
        readDocument read document.toText = .ok request := by
    intro request hordered hdepth document hdocument
    rw [readDocument_toText read (hintact request document hdocument)]
    exact hread request hordered depthLimit hdepth document hdocument
  refine ⟨?_, hback, ?_, ?_⟩
  · intro request hordered hdepth
    rw [hjson]
    exact hback request hordered hdepth _ (.refl _)
  · intro request hordered other hother document hdocument document' hdocument' htext
    have hsame : document = document' := by
      have hofText := congrArg Document.ofText htext
      rw [ofText_toText (hintact request document hdocument),
        ofText_toText (hintact other document' hdocument')] at hofText
      exact congrArg Document.tree hofText
    subst hsame
    have hleft := hread request hordered _ (Nat.le_max_left _ (Tree.record (members other)).depth)
      document hdocument
    have hright := hread other hother _ (Nat.le_max_right (Tree.record (members request)).depth _)
      document hdocument'
    exact Except.ok.inj (hleft.symm.trans hright)
  · intro request member hmember
    have hpresent := (hwrites request).present member hmember
    exact ⟨hpresent.ne_null, hpresent.kept⟩

end Kinds

/-! ## The six kinds -/

namespace GetRequest

theorem writes_members (request : GetRequest) :
    Writes (fields.map Field.name) ["Key"] request.members := by
  have hhead : Writes ["TableName", "Key"] ["Key"]
      [("TableName", .text request.tableName), ("Key", dictTree Value.toTree request.key)] :=
    .cons (isPresent_text _) (.cons (isPresent_dictTree Value.intact_toTree fun _ => by decide) .nil)
  exact hhead
    |>.append (writes_memberOf isPresent_boolean _)
    |>.append (writes_memberOf isPresent_text _)
    |>.append (writes_dictMemberOf intact_text _)

theorem readsAs_members (request : GetRequest)
    (hordered : ∀ dict ∈ [request.key], (Value.ofDict dict).IsOrdered)
    (depth : Nat) (hdepth : (Tree.record request.members).depth ≤ depth) :
    ReadsAs (read depth) (Tree.record request.members) request := by
  refine readsAs_record (fun _ _ => rfl) (by decide) request.writes_members ?_ hdepth
  intro depth found hfinds
  have hkey : (Value.ofDict request.key).IsOrdered := hordered _ (.head _)
  have hreadTableName : required found "TableName" readText = .ok request.tableName :=
    hfinds.text (by simp [members, findEntry])
  have hreadKey : required found "Key" (readValues depth) = .ok request.key :=
    hfinds.values (by simp [members, findEntry]) hkey
  have hreadConsistentRead : optional found "ConsistentRead" readBoolean = .ok request.consistentRead :=
    hfinds.optional (by simp [members, findEntry, findEntry_append]) readsAs_boolean rfl
  have hreadProjectionExpression : optional found "ProjectionExpression" readText =
      .ok request.projectionExpression :=
    hfinds.optional (by simp [members, findEntry, findEntry_append]) readsAs_text rfl
  have hreadNames : withDefault found "ExpressionAttributeNames" .empty (readNames depth) =
      .ok request.names :=
    hfinds.withDefault (by simp [members, findEntry, findEntry_append]) readsAs_names
  simp only [bind_eq_ok_iff]
  exact ⟨_, hreadTableName, _, hreadKey, _, hreadConsistentRead, _, hreadProjectionExpression,
    _, hreadNames, rfl⟩

end GetRequest

namespace PutRequest

theorem writes_members (request : PutRequest) :
    Writes (fields.map Field.name) ["Item"] request.members := by
  have hhead : Writes ["TableName", "Item"] ["Item"]
      [("TableName", .text request.tableName), ("Item", dictTree Value.toTree request.item)] :=
    .cons (isPresent_text _) (.cons (isPresent_dictTree Value.intact_toTree fun _ => by decide) .nil)
  exact hhead
    |>.append (writes_memberOf isPresent_text _)
    |>.append (writes_dictMemberOf intact_text _)
    |>.append (writes_dictMemberOf Value.intact_toTree _)
    |>.append (writes_memberOf isPresent_returnMode _)

theorem readsAs_members (request : PutRequest)
    (hordered : ∀ dict ∈ [request.item, request.values], (Value.ofDict dict).IsOrdered)
    (depth : Nat) (hdepth : (Tree.record request.members).depth ≤ depth) :
    ReadsAs (read depth) (Tree.record request.members) request := by
  refine readsAs_record (fun _ _ => rfl) (by decide) request.writes_members ?_ hdepth
  intro depth found hfinds
  have hitem : (Value.ofDict request.item).IsOrdered := hordered _ (.head _)
  have hvalues : (Value.ofDict request.values).IsOrdered := hordered _ (.tail _ (.head _))
  have hreadTableName : required found "TableName" readText = .ok request.tableName :=
    hfinds.text (by simp [members, findEntry])
  have hreadItem : required found "Item" (readValues depth) = .ok request.item :=
    hfinds.values (by simp [members, findEntry]) hitem
  have hreadConditionExpression : optional found "ConditionExpression" readText =
      .ok request.conditionExpression :=
    hfinds.optional (by simp [members, findEntry, findEntry_append]) readsAs_text rfl
  have hreadNames : withDefault found "ExpressionAttributeNames" .empty (readNames depth) =
      .ok request.names :=
    hfinds.withDefault (by simp [members, findEntry, findEntry_append]) readsAs_names
  have hreadValues : withDefault found "ExpressionAttributeValues" .empty (readValues depth) =
      .ok request.values :=
    hfinds.withDefault (by simp [members, findEntry, findEntry_append]) (readsAs_values hvalues)
  have hreadReturnValues : optional found "ReturnValues" (readTag ReturnMode.ofTag? depth) =
      .ok request.returnValues :=
    hfinds.optional (by simp [members, findEntry, findEntry_append]) (readsAs_returnMode depth)
      (readTag_null _ depth)
  simp only [bind_eq_ok_iff]
  exact ⟨_, hreadTableName, _, hreadItem, _, hreadConditionExpression, _, hreadNames, _, hreadValues,
    _, hreadReturnValues, rfl⟩

end PutRequest

namespace UpdateRequest

theorem writes_members (request : UpdateRequest) :
    Writes (fields.map Field.name) ["Key"] request.members := by
  have hhead : Writes ["TableName", "Key"] ["Key"]
      [("TableName", .text request.tableName), ("Key", dictTree Value.toTree request.key)] :=
    .cons (isPresent_text _) (.cons (isPresent_dictTree Value.intact_toTree fun _ => by decide) .nil)
  exact hhead
    |>.append (writes_memberOf isPresent_text _)
    |>.append (writes_memberOf isPresent_text _)
    |>.append (writes_dictMemberOf intact_text _)
    |>.append (writes_dictMemberOf Value.intact_toTree _)
    |>.append (writes_memberOf isPresent_returnMode _)

theorem readsAs_members (request : UpdateRequest)
    (hordered : ∀ dict ∈ [request.key, request.values], (Value.ofDict dict).IsOrdered)
    (depth : Nat) (hdepth : (Tree.record request.members).depth ≤ depth) :
    ReadsAs (read depth) (Tree.record request.members) request := by
  refine readsAs_record (fun _ _ => rfl) (by decide) request.writes_members ?_ hdepth
  intro depth found hfinds
  have hkey : (Value.ofDict request.key).IsOrdered := hordered _ (.head _)
  have hvalues : (Value.ofDict request.values).IsOrdered := hordered _ (.tail _ (.head _))
  have hreadTableName : required found "TableName" readText = .ok request.tableName :=
    hfinds.text (by simp [members, findEntry])
  have hreadKey : required found "Key" (readValues depth) = .ok request.key :=
    hfinds.values (by simp [members, findEntry]) hkey
  have hreadUpdateExpression : optional found "UpdateExpression" readText = .ok request.updateExpression :=
    hfinds.optional (by simp [members, findEntry, findEntry_append]) readsAs_text rfl
  have hreadConditionExpression : optional found "ConditionExpression" readText =
      .ok request.conditionExpression :=
    hfinds.optional (by simp [members, findEntry, findEntry_append]) readsAs_text rfl
  have hreadNames : withDefault found "ExpressionAttributeNames" .empty (readNames depth) =
      .ok request.names :=
    hfinds.withDefault (by simp [members, findEntry, findEntry_append]) readsAs_names
  have hreadValues : withDefault found "ExpressionAttributeValues" .empty (readValues depth) =
      .ok request.values :=
    hfinds.withDefault (by simp [members, findEntry, findEntry_append]) (readsAs_values hvalues)
  have hreadReturnValues : optional found "ReturnValues" (readTag ReturnMode.ofTag? depth) =
      .ok request.returnValues :=
    hfinds.optional (by simp [members, findEntry, findEntry_append]) (readsAs_returnMode depth)
      (readTag_null _ depth)
  simp only [bind_eq_ok_iff]
  exact ⟨_, hreadTableName, _, hreadKey, _, hreadUpdateExpression, _, hreadConditionExpression,
    _, hreadNames, _, hreadValues, _, hreadReturnValues, rfl⟩

end UpdateRequest

namespace DeleteRequest

theorem writes_members (request : DeleteRequest) :
    Writes (fields.map Field.name) ["Key"] request.members := by
  have hhead : Writes ["TableName", "Key"] ["Key"]
      [("TableName", .text request.tableName), ("Key", dictTree Value.toTree request.key)] :=
    .cons (isPresent_text _) (.cons (isPresent_dictTree Value.intact_toTree fun _ => by decide) .nil)
  exact hhead
    |>.append (writes_memberOf isPresent_text _)
    |>.append (writes_dictMemberOf intact_text _)
    |>.append (writes_dictMemberOf Value.intact_toTree _)
    |>.append (writes_memberOf isPresent_returnMode _)

theorem readsAs_members (request : DeleteRequest)
    (hordered : ∀ dict ∈ [request.key, request.values], (Value.ofDict dict).IsOrdered)
    (depth : Nat) (hdepth : (Tree.record request.members).depth ≤ depth) :
    ReadsAs (read depth) (Tree.record request.members) request := by
  refine readsAs_record (fun _ _ => rfl) (by decide) request.writes_members ?_ hdepth
  intro depth found hfinds
  have hkey : (Value.ofDict request.key).IsOrdered := hordered _ (.head _)
  have hvalues : (Value.ofDict request.values).IsOrdered := hordered _ (.tail _ (.head _))
  have hreadTableName : required found "TableName" readText = .ok request.tableName :=
    hfinds.text (by simp [members, findEntry])
  have hreadKey : required found "Key" (readValues depth) = .ok request.key :=
    hfinds.values (by simp [members, findEntry]) hkey
  have hreadConditionExpression : optional found "ConditionExpression" readText =
      .ok request.conditionExpression :=
    hfinds.optional (by simp [members, findEntry, findEntry_append]) readsAs_text rfl
  have hreadNames : withDefault found "ExpressionAttributeNames" .empty (readNames depth) =
      .ok request.names :=
    hfinds.withDefault (by simp [members, findEntry, findEntry_append]) readsAs_names
  have hreadValues : withDefault found "ExpressionAttributeValues" .empty (readValues depth) =
      .ok request.values :=
    hfinds.withDefault (by simp [members, findEntry, findEntry_append]) (readsAs_values hvalues)
  have hreadReturnValues : optional found "ReturnValues" (readTag ReturnMode.ofTag? depth) =
      .ok request.returnValues :=
    hfinds.optional (by simp [members, findEntry, findEntry_append]) (readsAs_returnMode depth)
      (readTag_null _ depth)
  simp only [bind_eq_ok_iff]
  exact ⟨_, hreadTableName, _, hreadKey, _, hreadConditionExpression, _, hreadNames, _, hreadValues,
    _, hreadReturnValues, rfl⟩

end DeleteRequest

namespace QueryRequest

theorem writes_members (request : QueryRequest) :
    Writes (fields.map Field.name) [] request.members := by
  have hhead : Writes ["TableName"] [] [("TableName", .text request.tableName)] :=
    .cons (isPresent_text _) .nil
  exact hhead
    |>.append (writes_memberOf isPresent_text _)
    |>.append (writes_memberOf isPresent_text _)
    |>.append (writes_memberOf isPresent_text _)
    |>.append (writes_memberOf isPresent_text _)
    |>.append (writes_dictMemberOf intact_text _)
    |>.append (writes_dictMemberOf Value.intact_toTree _)
    |>.append (writes_memberOf isPresent_boolean _)
    |>.append (writes_memberOf isPresent_int32Tree _)
    |>.append (writes_dictMemberOf Value.intact_toTree _)
    |>.append (writes_memberOf isPresent_selectMode _)
    |>.append (writes_memberOf isPresent_boolean _)

theorem readsAs_members (request : QueryRequest)
    (hordered : ∀ dict ∈ [request.values, request.exclusiveStartKey], (Value.ofDict dict).IsOrdered)
    (depth : Nat) (hdepth : (Tree.record request.members).depth ≤ depth) :
    ReadsAs (read depth) (Tree.record request.members) request := by
  refine readsAs_record (fun _ _ => rfl) (by decide) request.writes_members ?_ hdepth
  intro depth found hfinds
  have hvalues : (Value.ofDict request.values).IsOrdered := hordered _ (.head _)
  have hexclusiveStartKey : (Value.ofDict request.exclusiveStartKey).IsOrdered := hordered _ (.tail _ (.head _))
  have hreadTableName : required found "TableName" readText = .ok request.tableName :=
    hfinds.text (by simp [members, findEntry])
  have hreadIndexName : optional found "IndexName" readText = .ok request.indexName :=
    hfinds.optional (by simp [members, findEntry, findEntry_append]) readsAs_text rfl
  have hreadKeyConditionExpression : optional found "KeyConditionExpression" readText =
      .ok request.keyConditionExpression :=
    hfinds.optional (by simp [members, findEntry, findEntry_append]) readsAs_text rfl
  have hreadFilterExpression : optional found "FilterExpression" readText = .ok request.filterExpression :=
    hfinds.optional (by simp [members, findEntry, findEntry_append]) readsAs_text rfl
  have hreadProjectionExpression : optional found "ProjectionExpression" readText =
      .ok request.projectionExpression :=
    hfinds.optional (by simp [members, findEntry, findEntry_append]) readsAs_text rfl
  have hreadNames : withDefault found "ExpressionAttributeNames" .empty (readNames depth) =
      .ok request.names :=
    hfinds.withDefault (by simp [members, findEntry, findEntry_append]) readsAs_names
  have hreadValues : withDefault found "ExpressionAttributeValues" .empty (readValues depth) =
      .ok request.values :=
    hfinds.withDefault (by simp [members, findEntry, findEntry_append]) (readsAs_values hvalues)
  have hreadScanIndexForward : optional found "ScanIndexForward" readBoolean = .ok request.scanIndexForward :=
    hfinds.optional (by simp [members, findEntry, findEntry_append]) readsAs_boolean rfl
  have hreadLimit : optional found "Limit" readInt32 = .ok request.limit :=
    hfinds.optional (by simp [members, findEntry, findEntry_append]) readsAs_int32Tree rfl
  have hreadExclusiveStartKey : withDefault found "ExclusiveStartKey" .empty (readValues depth) =
      .ok request.exclusiveStartKey :=
    hfinds.withDefault (by simp [members, findEntry, findEntry_append]) (readsAs_values hexclusiveStartKey)
  have hreadSelect : optional found "Select" (readTag SelectMode.ofTag? depth) = .ok request.select :=
    hfinds.optional (by simp [members, findEntry, findEntry_append]) (readsAs_selectMode depth)
      (readTag_null _ depth)
  have hreadConsistentRead : optional found "ConsistentRead" readBoolean = .ok request.consistentRead :=
    hfinds.optional (by simp [members, findEntry, findEntry_append]) readsAs_boolean rfl
  simp only [bind_eq_ok_iff]
  exact ⟨_, hreadTableName, _, hreadIndexName, _, hreadKeyConditionExpression, _, hreadFilterExpression,
    _, hreadProjectionExpression, _, hreadNames, _, hreadValues, _, hreadScanIndexForward, _, hreadLimit,
    _, hreadExclusiveStartKey, _, hreadSelect, _, hreadConsistentRead, rfl⟩

end QueryRequest

namespace ScanRequest

theorem writes_members (request : ScanRequest) :
    Writes (fields.map Field.name) [] request.members := by
  have hhead : Writes ["TableName"] [] [("TableName", .text request.tableName)] :=
    .cons (isPresent_text _) .nil
  exact hhead
    |>.append (writes_memberOf isPresent_text _)
    |>.append (writes_memberOf isPresent_text _)
    |>.append (writes_memberOf isPresent_text _)
    |>.append (writes_dictMemberOf intact_text _)
    |>.append (writes_dictMemberOf Value.intact_toTree _)
    |>.append (writes_memberOf isPresent_int32Tree _)
    |>.append (writes_dictMemberOf Value.intact_toTree _)
    |>.append (writes_memberOf isPresent_int32Tree _)
    |>.append (writes_memberOf isPresent_int32Tree _)
    |>.append (writes_memberOf isPresent_selectMode _)
    |>.append (writes_memberOf isPresent_boolean _)

theorem readsAs_members (request : ScanRequest)
    (hordered : ∀ dict ∈ [request.values, request.exclusiveStartKey], (Value.ofDict dict).IsOrdered)
    (depth : Nat) (hdepth : (Tree.record request.members).depth ≤ depth) :
    ReadsAs (read depth) (Tree.record request.members) request := by
  refine readsAs_record (fun _ _ => rfl) (by decide) request.writes_members ?_ hdepth
  intro depth found hfinds
  have hvalues : (Value.ofDict request.values).IsOrdered := hordered _ (.head _)
  have hexclusiveStartKey : (Value.ofDict request.exclusiveStartKey).IsOrdered := hordered _ (.tail _ (.head _))
  have hreadTableName : required found "TableName" readText = .ok request.tableName :=
    hfinds.text (by simp [members, findEntry])
  have hreadIndexName : optional found "IndexName" readText = .ok request.indexName :=
    hfinds.optional (by simp [members, findEntry, findEntry_append]) readsAs_text rfl
  have hreadFilterExpression : optional found "FilterExpression" readText = .ok request.filterExpression :=
    hfinds.optional (by simp [members, findEntry, findEntry_append]) readsAs_text rfl
  have hreadProjectionExpression : optional found "ProjectionExpression" readText =
      .ok request.projectionExpression :=
    hfinds.optional (by simp [members, findEntry, findEntry_append]) readsAs_text rfl
  have hreadNames : withDefault found "ExpressionAttributeNames" .empty (readNames depth) =
      .ok request.names :=
    hfinds.withDefault (by simp [members, findEntry, findEntry_append]) readsAs_names
  have hreadValues : withDefault found "ExpressionAttributeValues" .empty (readValues depth) =
      .ok request.values :=
    hfinds.withDefault (by simp [members, findEntry, findEntry_append]) (readsAs_values hvalues)
  have hreadLimit : optional found "Limit" readInt32 = .ok request.limit :=
    hfinds.optional (by simp [members, findEntry, findEntry_append]) readsAs_int32Tree rfl
  have hreadExclusiveStartKey : withDefault found "ExclusiveStartKey" .empty (readValues depth) =
      .ok request.exclusiveStartKey :=
    hfinds.withDefault (by simp [members, findEntry, findEntry_append]) (readsAs_values hexclusiveStartKey)
  have hreadSegment : optional found "Segment" readInt32 = .ok request.segment :=
    hfinds.optional (by simp [members, findEntry, findEntry_append]) readsAs_int32Tree rfl
  have hreadTotalSegments : optional found "TotalSegments" readInt32 = .ok request.totalSegments :=
    hfinds.optional (by simp [members, findEntry, findEntry_append]) readsAs_int32Tree rfl
  have hreadSelect : optional found "Select" (readTag SelectMode.ofTag? depth) = .ok request.select :=
    hfinds.optional (by simp [members, findEntry, findEntry_append]) (readsAs_selectMode depth)
      (readTag_null _ depth)
  have hreadConsistentRead : optional found "ConsistentRead" readBoolean = .ok request.consistentRead :=
    hfinds.optional (by simp [members, findEntry, findEntry_append]) readsAs_boolean rfl
  simp only [bind_eq_ok_iff]
  exact ⟨_, hreadTableName, _, hreadIndexName, _, hreadFilterExpression, _, hreadProjectionExpression,
    _, hreadNames, _, hreadValues, _, hreadLimit, _, hreadExclusiveStartKey, _, hreadSegment,
    _, hreadTotalSegments, _, hreadSelect, _, hreadConsistentRead, rfl⟩

end ScanRequest

/-- **Requests round trip.** The wire form of a request of any of the six kinds is read as the very request,
for every choice of absent members and empty dictionaries and for all texts, integers and values, as long as
the document is no deeper than the reader goes; and no two requests of a kind have a wire form in common. Both
hold for every order in which the dictionaries of the request are listed. -/
theorem requests_round_trip :
    RoundTrips GetRequest.members GetRequest.toJson GetRequest.read (fun request => [request.key]) ["Key"] ∧
    RoundTrips PutRequest.members PutRequest.toJson PutRequest.read
      (fun request => [request.item, request.values]) ["Item"] ∧
    RoundTrips UpdateRequest.members UpdateRequest.toJson UpdateRequest.read
      (fun request => [request.key, request.values]) ["Key"] ∧
    RoundTrips DeleteRequest.members DeleteRequest.toJson DeleteRequest.read
      (fun request => [request.key, request.values]) ["Key"] ∧
    RoundTrips QueryRequest.members QueryRequest.toJson QueryRequest.read
      (fun request => [request.values, request.exclusiveStartKey]) [] ∧
    RoundTrips ScanRequest.members ScanRequest.toJson ScanRequest.read
      (fun request => [request.values, request.exclusiveStartKey]) [] := by
  refine ⟨?_, ?_, ?_, ?_, ?_, ?_⟩
  · exact .of_readsAs (fun _ => rfl) GetRequest.writes_members GetRequest.readsAs_members
  · exact .of_readsAs (fun _ => rfl) PutRequest.writes_members PutRequest.readsAs_members
  · exact .of_readsAs (fun _ => rfl) UpdateRequest.writes_members UpdateRequest.readsAs_members
  · exact .of_readsAs (fun _ => rfl) DeleteRequest.writes_members DeleteRequest.readsAs_members
  · exact .of_readsAs (fun _ => rfl) QueryRequest.writes_members QueryRequest.readsAs_members
  · exact .of_readsAs (fun _ => rfl) ScanRequest.writes_members ScanRequest.readsAs_members

/-- A scan of one segment, with the least integer, marks of strings in its texts and a map inside a value. -/
def segmentScan : ScanRequest where
  tableName := "app \"photos\"\n"
  filterExpression := some "#a = :a_0"
  names := .singleton "#a" "a"
  values := .singleton ":a_0" (.map [("", .list []), ("📷", .binary [255])])
  limit := some Int32.minValue
  segment := some 0
  select := some .count

/-- A request for the first item of a table, with its members the other way round. -/
def reversedFirst : Tree := .record [("Limit", .number 1), ("TableName", .text "app")]

/-- The text of the scan is read as the scan, and a document with its members the other way round as the
request it was written for. -/
theorem requests_round_trip_segment :
    (∀ dict ∈ [segmentScan.values, segmentScan.exclusiveStartKey], (Value.ofDict dict).IsOrdered) ∧
    (Tree.record segmentScan.members).depth ≤ depthLimit ∧
    readDocument ScanRequest.read segmentScan.toJson = .ok segmentScan ∧
    readDocument QueryRequest.read reversedFirst.toText = .ok { tableName := "app", limit := some 1 } := by
  have hordered : ∀ dict ∈ [segmentScan.values, segmentScan.exclusiveStartKey],
      (Value.ofDict dict).IsOrdered := by decide
  have hdepth : (Tree.record segmentScan.members).depth ≤ depthLimit := by decide
  have hback := requests_round_trip.2.2.2.2.2.back segmentScan hordered hdepth
  refine ⟨hordered, hdepth, hback, ?_⟩
  refine requests_round_trip.2.2.2.2.1.back_reordered { tableName := "app", limit := some 1 }
    (by decide) (by decide) reversedFirst ?_
  exact ⟨_, _, rfl, Tree.MembersReordered.refl _, List.Perm.swap _ _ _⟩

end SingleTable
