import SingleTable.Failure
import SingleTable.Json.Record
import SingleTable.Proofs.Json.Tokens

/-!
# Documents are read as they were written

The tokens of a tree without a fault are read as the tree, and the tokens behind it are left
(`readValue_toTokens`); two nested calls for each token are enough. Written texts are cut into these tokens, so
the document of the text of a tree is the tree (`ofText_toText`), and a typed reader of the text is the reader
of the tree (`readDocument_toText`).
-/

set_option autoImplicit false

namespace SingleTable.Json

/-! ## Trees without a fault -/

namespace Tree

theorem intactItems_iff {items : List Tree} :
    intactItems items = true ↔ ∀ item ∈ items, item.intact = true := by
  induction items with
  | nil => exact ⟨fun _ => nofun, fun _ => rfl⟩
  | cons item rest ih => rw [intactItems, Bool.and_eq_true, List.forall_mem_cons, ih]

theorem intactMembers_iff {members : List (Option String × Tree)} :
    intactMembers members = true ↔ ∀ member ∈ members, member.2.intact = true := by
  induction members with
  | nil => exact ⟨fun _ => nofun, fun _ => rfl⟩
  | cons member rest ih => rw [intactMembers, Bool.and_eq_true, List.forall_mem_cons, ih]

/-- An object of named members has no fault exactly if its members have none. -/
theorem intact_record_iff {members : List (String × Tree)} :
    (record members).intact = true ↔ ∀ member ∈ members, member.2.intact = true := by
  rw [record, intact, intactMembers_iff, List.forall_mem_map]

end Tree

/-! ## Values -/

/-- The first token of a tree opens it, so it closes nothing. -/
theorem exists_first_token {tree : Tree} (hintact : tree.intact = true) :
    ∃ first more, tree.toTokens = first :: more ∧ first ≠ .closeBracket ∧ first ≠ .closeBrace := by
  cases tree with
  | array items => exact ⟨_, _, rfl, nofun, nofun⟩
  | object members => exact ⟨_, _, rfl, nofun, nofun⟩
  | broken => cases hintact
  | _ => exact ⟨_, _, rfl, nofun, nofun⟩

/-- The first token of the name of a member gives its name. -/
theorem memberName?_ofName (name : Option String) : (Token.ofName name).memberName? = some name := by
  cases name with
  | some name => rfl
  | none => rfl

/-- The tokens of the items of an array do not start with its closing bracket. -/
theorem itemTokens_ne_close {item : Tree} {others : List Tree}
    (hintact : Tree.intactItems (item :: others) = true) (behind rest : List Token) :
    itemTokens (item :: others) ++ behind ≠ .closeBracket :: rest := by
  rw [Tree.intactItems, Bool.and_eq_true] at hintact
  obtain ⟨first, more, hfirst, hne, -⟩ := exists_first_token hintact.1
  cases others with
  | nil =>
    rw [itemTokens, hfirst]
    exact fun h => hne (List.cons.inj h).1
  | cons next others =>
    rw [itemTokens_cons_cons, hfirst]
    exact fun h => hne (List.cons.inj h).1

/-- The tokens of the members of an object do not start with its closing brace. -/
theorem memberTokens_ne_close (name : Option String) (value : Tree)
    (others : List (Option String × Tree)) (behind rest : List Token) :
    memberTokens ((name, value) :: others) ++ behind ≠ .closeBrace :: rest := by
  have hname : Token.ofName name ≠ .closeBrace := by
    cases name with
    | some name => exact nofun
    | none => exact nofun
  cases others with
  | nil => exact fun h => hname (List.cons.inj h).1
  | cons next others =>
    rw [memberTokens_cons_cons]
    exact fun h => hname (List.cons.inj h).1

mutual

/-- The tokens of a tree are read as the tree, up to the tokens behind it. -/
theorem readValue_toTokens (tree : Tree) (hintact : tree.intact = true) {fuel : Nat}
    (hfuel : 2 * tree.toTokens.length ≤ fuel) (rest : List Token) :
    readValue fuel (tree.toTokens ++ rest) = (tree, some rest) := by
  obtain ⟨first, more, hfirst, -⟩ := exists_first_token hintact
  obtain ⟨fuel, rfl⟩ : ∃ less, fuel = less + 1 := by
    rw [hfirst, List.length_cons] at hfuel
    exact ⟨fuel - 1, by omega⟩
  cases tree with
  | null => rfl
  | boolean value => rfl
  | integer negative magnitude => rfl
  | fraction => rfl
  | text value => rfl
  | unpaired => rfl
  | array items =>
    rw [Tree.intact] at hintact
    rw [Tree.toTokens, List.length_append, List.length_cons, List.length_singleton] at hfuel
    rw [Tree.toTokens, List.cons_append, List.cons_append, List.append_assoc, List.singleton_append]
    cases items with
    | nil => rfl
    | cons item others =>
      rw [readValue, readItems_itemTokens (item :: others) (List.cons_ne_nil _ _) hintact (by omega)]
      exact itemTokens_ne_close hintact _
  | object members =>
    rw [Tree.intact] at hintact
    rw [Tree.toTokens, List.length_append, List.length_cons, List.length_singleton] at hfuel
    rw [Tree.toTokens, List.cons_append, List.cons_append, List.append_assoc, List.singleton_append]
    cases members with
    | nil => rfl
    | cons member others =>
      rw [readValue, readMembers_memberTokens (member :: others) (List.cons_ne_nil _ _) hintact (by omega)]
      exact memberTokens_ne_close member.1 member.2 others _
  | broken => cases hintact

/-- The tokens of the items of an array are read as the items, up to the closing bracket. -/
theorem readItems_itemTokens (items : List Tree) (hnonempty : items ≠ [])
    (hintact : Tree.intactItems items = true) {fuel : Nat}
    (hfuel : 2 * (itemTokens items).length + 1 ≤ fuel) (rest : List Token) :
    readItems fuel (itemTokens items ++ .closeBracket :: rest) = (items, some rest) := by
  obtain ⟨fuel, rfl⟩ : ∃ less, fuel = less + 1 := ⟨fuel - 1, by omega⟩
  cases items with
  | nil => exact absurd rfl hnonempty
  | cons item others =>
    rw [Tree.intactItems, Bool.and_eq_true] at hintact
    cases others with
    | nil =>
      rw [itemTokens] at hfuel ⊢
      rw [readItems, readValue_toTokens item hintact.1 (by omega)]
    | cons next others =>
      rw [itemTokens_cons_cons, List.length_append, List.length_cons] at hfuel
      have hothers : 2 * (itemTokens (next :: others)).length + 1 ≤ fuel := by omega
      rw [itemTokens_cons_cons, List.append_assoc, List.cons_append, readItems,
        readValue_toTokens item hintact.1 (by omega)]
      dsimp only
      rw [readItems_itemTokens (next :: others) (List.cons_ne_nil _ _) hintact.2 hothers]

/-- The tokens of the members of an object are read as the members, up to the closing brace. -/
theorem readMembers_memberTokens (members : List (Option String × Tree)) (hnonempty : members ≠ [])
    (hintact : Tree.intactMembers members = true) {fuel : Nat}
    (hfuel : 2 * (memberTokens members).length + 1 ≤ fuel) (rest : List Token) :
    readMembers fuel (memberTokens members ++ .closeBrace :: rest) = (members, some rest) := by
  obtain ⟨fuel, rfl⟩ : ∃ less, fuel = less + 1 := ⟨fuel - 1, by omega⟩
  cases members with
  | nil => exact absurd rfl hnonempty
  | cons member others =>
    obtain ⟨name, value⟩ := member
    rw [Tree.intactMembers, Bool.and_eq_true] at hintact
    cases others with
    | nil =>
      rw [memberTokens, List.length_cons, List.length_cons] at hfuel
      rw [memberTokens, List.cons_append, List.cons_append, readMembers]
      dsimp only
      rw [memberName?_ofName]
      dsimp only
      rw [readValue_toTokens value hintact.1 (by omega)]
    | cons next others =>
      rw [memberTokens_cons_cons, List.length_append, List.length_cons, List.length_cons,
        List.length_cons] at hfuel
      have hothers : 2 * (memberTokens (next :: others)).length + 1 ≤ fuel := by omega
      rw [memberTokens_cons_cons, List.append_assoc, List.cons_append, List.cons_append, List.cons_append,
        readMembers]
      dsimp only
      rw [memberName?_ofName]
      dsimp only
      rw [readValue_toTokens value hintact.1 (by omega)]
      dsimp only
      rw [readMembers_memberTokens (next :: others) (List.cons_ne_nil _ _) hintact.2 hothers]

end

/-! ## Documents -/

/-- **A written document is read again.** The text of a tree without a fault is a document, and it is read
as the tree. -/
theorem ofText_toText {tree : Tree} (hintact : tree.intact = true) :
    Document.ofText tree.toText = ⟨tree, true⟩ := by
  have htokens : tokens tree.toText.toList = tree.toTokens := by
    have hprint := tokens_print tree hintact isDelimited_nil
    rw [Tree.toText, String.toList_ofList, ← List.append_nil (print tree), hprint, tokens, List.append_nil]
  have hread := readValue_toTokens tree hintact (Nat.le_succ (2 * tree.toTokens.length)) []
  rw [List.append_nil] at hread
  rw [Document.ofText, htokens, hread]

/-- Reading the text of a tree is reading the tree. -/
theorem readDocument_toText {α : Type} (read : Nat → Tree → Read α) {tree : Tree}
    (hintact : tree.intact = true) : readDocument read tree.toText = read depthLimit tree := by
  rw [readDocument, ofText_toText hintact]
  cases read depthLimit tree with
  | error rejection => rfl
  | ok value => rfl

/-- A text is accepted if its tree is read and nothing is wrong with it or stands behind it. -/
theorem readDocument_eq_ok_iff {α : Type} {read : Nat → Tree → Read α} {text : String} {value : α} :
    readDocument read text = .ok value ↔
      read depthLimit (Document.ofText text).tree = .ok value ∧ (Document.ofText text).complete = true := by
  rw [readDocument, bind_eq_ok_iff]
  cases hcomplete : (Document.ofText text).complete with
  | false => exact ⟨fun ⟨_, _, h⟩ => (nomatch h), fun h => nomatch h.2⟩
  | true =>
    constructor
    · rintro ⟨found, hread, hfound⟩
      cases hfound
      exact ⟨hread, rfl⟩
    · rintro ⟨hread, -⟩
      exact ⟨value, hread, rfl⟩

end SingleTable.Json
