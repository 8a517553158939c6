import SingleTable.Proofs.Condition.Maps
import SingleTable.Proofs.Expression.Actions
import SingleTable.Proofs.Request.Drafts

/-!
# What an update says

The expression of an update has one reading, and this reading gives, clause by clause, the actions that were
recorded for the clause by all calls, in the order of their recording (`update_lists_actions`). The argument has
two halves. The expression is the text of the clauses that have an action (`ChangeSet.text_compile`), which is
a reading if the targets are plain, and the grammar is unambiguous. And each value is bound: its placeholder was
minted for this value only, so neither another action nor a condition of the request writes over it.
-/

set_option autoImplicit false

namespace SingleTable

/-! ## The clauses of recorded actions -/

/-- The texts of the actions that were recorded for a clause, in the order of their recording. -/
def actionTexts (entries : List RecordedAction) (clause : Clause) : List String :=
  (entries.filter (·.action.clause = clause)).map RecordedAction.text

/-- The clauses of an update with the texts of their actions. A clause without an action is left out. -/
def clauseTexts (entries : List RecordedAction) : List ClauseText :=
  (Clause.inOrder.map fun clause => ⟨clause, actionTexts entries clause⟩).filter (!·.actions.isEmpty)

section Clauses

variable {entries : List RecordedAction}

theorem mem_clauseTexts_iff {clause : Clause} {actions : List String} :
    (⟨clause, actions⟩ : ClauseText) ∈ clauseTexts entries ↔
      actions ≠ [] ∧ actions = actionTexts entries clause := by
  have hclause : clause ∈ Clause.inOrder := by cases clause <;> decide
  rw [clauseTexts, List.mem_filter, List.mem_map, Bool.not_eq_true', List.isEmpty_eq_false_iff]
  constructor
  · rintro ⟨⟨other, -, heq⟩, hne⟩
    cases heq
    exact ⟨hne, rfl⟩
  · rintro ⟨hne, rfl⟩
    exact ⟨⟨clause, hclause, rfl⟩, hne⟩

/-- A clause with actions has their text. -/
theorem ChangeSet.clauseText_eq (changes : ChangeSet) (clause : Clause) :
    changes.clauseText clause =
      if (actionTexts changes.entries clause).isEmpty then ""
      else ClauseText.text ⟨clause, actionTexts changes.entries clause⟩ := by
  rw [clauseText, actionTexts]
  split
  · rename_i hnil
    rw [hnil]
    rfl
  · rename_i hne
    rw [if_neg (mt (fun h => List.map_eq_nil_iff.1 (List.isEmpty_iff.1 h)) hne)]
    rfl

/-- The expression of an update is the text of its clauses. -/
theorem ChangeSet.text_compile (changes : ChangeSet) :
    changes.compile.text = " ".intercalate ((clauseTexts changes.entries).map ClauseText.text) := by
  -- The same clauses are left out on both sides, and the others have the same texts.
  have hkept : ∀ clause, (!(changes.clauseText clause).isEmpty) =
      !(actionTexts changes.entries clause).isEmpty := by
    intro clause
    rw [clauseText_eq]
    cases hempty : (actionTexts changes.entries clause).isEmpty with
    | true => rfl
    | false =>
      have htext := ClauseText.text_ne_empty ⟨clause, actionTexts changes.entries clause⟩
      simp [htext]
  have hfilter : Clause.inOrder.filter ((fun text => !text.isEmpty) ∘ changes.clauseText) =
      Clause.inOrder.filter fun clause => !(actionTexts changes.entries clause).isEmpty :=
    List.filter_congr fun clause _ => hkept clause
  rw [compile, clauseTexts, List.filter_map, List.filter_map, List.map_map, hfilter]
  refine congrArg " ".intercalate (List.map_congr_left ?_)
  intro clause hclause
  have hsome : (!(actionTexts changes.entries clause).isEmpty) = true := (List.mem_filter.1 hclause).2
  rw [clauseText_eq, if_neg (by simpa using hsome)]
  rfl

/-- The clauses of actions on plain handles are a reading of their text. -/
theorem reads_clauseTexts (h : ∀ entry ∈ entries, entry.action.target.IsPlain) :
    Reads (clauseTexts entries) (" ".intercalate ((clauseTexts entries).map ClauseText.text)) := by
  refine ⟨?_, ?_, rfl⟩
  · have hsublist := (List.filter_sublist (p := fun part : ClauseText => !part.actions.isEmpty)
      (l := Clause.inOrder.map fun clause => ⟨clause, actionTexts entries clause⟩)).map ClauseText.clause
    rwa [List.map_map] at hsublist
  · rintro ⟨clause, actions⟩ hpart
    obtain ⟨hne, rfl⟩ := mem_clauseTexts_iff.1 hpart
    refine ⟨hne, fun text htext => ?_⟩
    obtain ⟨entry, hentry, rfl⟩ := List.mem_map.1 htext
    exact RecordedAction.isActionText (h entry (List.mem_filter.1 hentry).1)

/-- There is no clause exactly if there is no action. -/
theorem clauseTexts_eq_nil_iff : clauseTexts entries = [] ↔ entries = [] := by
  constructor
  · intro hnil
    cases entries with
    | nil => rfl
    | cons entry rest =>
      have hmem : entry ∈ (entry :: rest).filter (·.action.clause = entry.action.clause) :=
        List.mem_filter.2 ⟨List.mem_cons_self, by simp⟩
      have hpart := mem_clauseTexts_iff.2
        ⟨List.ne_nil_of_mem (List.mem_map_of_mem (f := RecordedAction.text) hmem), rfl⟩
      rw [hnil] at hpart
      cases hpart
  · rintro rfl
    rfl

end Clauses

/-! ## The values of a request -/

theorem RecordedAction.mem_bound {entry : RecordedAction} {value : Value}
    (h : entry.action.value? = some value) : (entry.placeholder, value) ∈ entry.bound := by
  rw [bound, h]
  exact List.mem_singleton_self _

namespace Update

variable {made : List (Test × Nat)} {recorded : List RecordedAction} {update : Update}

/-- What the condition of an update binds was minted by a test. -/
theorem Owned.minted_of_condition (h : Owned made recorded update) {placeholder : String} {value : Value}
    (hbound : update.chain.compile.values.get? placeholder = some value) :
    MintedIn made recorded placeholder value := by
  have hleaf : ∀ leaf ∈ update.chain.combined.leaves, ∀ value, leaf.values.get? placeholder = some value →
      MintedIn made recorded placeholder value := by
    intro leaf hleaf value hvalue
    rw [Chain.leaves_combined] at hleaf
    obtain ⟨entry, hentry, hcomes⟩ := h.chain.leaves leaf hleaf
    rw [hcomes] at hvalue
    exact Or.inl ⟨entry, hentry, get?_leaf.1 hvalue⟩
  rw [Chain.compile, Condition.compile, Condition.get?_valuesOf_iff] at hbound
  · obtain ⟨leaf, hmem, hvalue⟩ := hbound
    exact hleaf leaf hmem value hvalue
  · intro a ha b hb v w hv hw
    exact h.minted_unique (hleaf a ha v hv) (hleaf b hb w hw)

/-- The changes of an update bind the value of each action. -/
theorem Owned.get?_changes (h : Owned made recorded update) {entry : RecordedAction} (hentry : entry ∈ recorded)
    {value : Value} (hvalue : entry.action.value? = some value) :
    update.changes.compile.values.get? entry.placeholder = some value := by
  rw [ChangeSet.compile, h.entries, Dict.get?_ofList_flatMap_iff]
  · exact ⟨entry, hentry, RecordedAction.mem_bound hvalue⟩
  · intro a ha b hb v w hv hw
    exact h.minted_unique (Or.inr ⟨a, ha, hv⟩) (Or.inr ⟨b, hb, hw⟩)

/-- A condition that binds the placeholder of an action binds it to the same value, so the action finds its
value in the merged maps. -/
theorem Owned.get?_merged (h : Owned made recorded update) {entry : RecordedAction} (hentry : entry ∈ recorded)
    {value : Value} (hvalue : entry.action.value? = some value) :
    (update.changes.compile.values.extend update.chain.compile.values).get? entry.placeholder = some value := by
  rw [Dict.get?_extend, h.get?_changes hentry hvalue]
  cases hcondition : update.chain.compile.values.get? entry.placeholder with
  | none => rfl
  | some other =>
    have hminted : MintedIn made recorded entry.placeholder value :=
      Or.inr ⟨entry, hentry, RecordedAction.mem_bound hvalue⟩
    rw [h.minted_unique (h.minted_of_condition hcondition) hminted]
    rfl

end Update

/-- **An update lists its recorded actions.** Take any update by calls that record actions on plain targets and
add conditions, in any order, and let the build succeed. There is an update expression exactly if an action was
recorded. It has one reading. This reading has a clause exactly if an action was recorded for it, and gives for
the clause the texts of its actions in the order of their recording. The clause and the text of an action tell
its operation, its operand and, unless it is a removal, its placeholder. The placeholder of each action with a
value is bound to this value. -/
theorem update_lists_actions {made : List (Test × Nat)} {recorded : List RecordedAction} {update : Update}
    (h : Update.Reached made recorded update) (hplain : ∀ entry ∈ recorded, entry.action.target.IsPlain)
    {request : UpdateRequest} (hbuild : update.build = .ok request) :
    (request.updateExpression = none ↔ recorded = []) ∧
    (∃ parts, (∀ others, Reads others (request.updateExpression.getD "") ↔ others = parts) ∧
      ∀ clause actions, (⟨clause, actions⟩ : ClauseText) ∈ parts ↔
        actions ≠ [] ∧ actions = actionTexts recorded clause) ∧
    (∀ entry ∈ recorded, ∀ other ∈ recorded,
      entry.action.clause = other.action.clause → entry.text = other.text →
        entry.action.operation = other.action.operation ∧
          entry.action.target.operand.text = other.action.target.operand.text ∧
            (entry.action.operation ≠ .remove → entry.placeholder = other.placeholder)) ∧
    ∀ entry ∈ recorded, ∀ value, entry.action.value? = some value →
      request.values.get? entry.placeholder = some value := by
  have howned := h.owned
  obtain ⟨key, -, hbuild⟩ := bind_eq_ok_iff.1 hbuild
  cases hbuild
  have htext : update.changes.compile.text = " ".intercalate ((clauseTexts recorded).map ClauseText.text) := by
    rw [ChangeSet.text_compile, howned.entries]
  refine ⟨?_, ⟨clauseTexts recorded, ?_, ?_⟩, ?_, ?_⟩
  · dsimp only
    rw [Fragment.text?_eq_none_iff, htext, clauses_eq_empty_iff, clauseTexts_eq_nil_iff]
  · intro others
    dsimp only
    rw [Fragment.getD_text?, htext]
    have hreads := reads_clauseTexts hplain
    exact ⟨fun hothers => hothers.unique hreads, fun heq => heq ▸ hreads⟩
  · exact fun clause actions => mem_clauseTexts_iff
  · intro entry hentry other hother
    exact RecordedAction.text_inj (hplain entry hentry) (hplain other hother)
  · intro entry hentry value hvalue
    dsimp only [Fragment.merge]
    rw [Dict.empty_extend]
    exact howned.get?_merged hentry hvalue

/-! ### Changes of a basket -/

/-- A change of a basket that is open, before and after the condition was added. -/
def basketUpdate : Update :=
  ((Update.record
    { model := { name := "Basket", table := "app", key := [⟨"PK", "BASKET#${id}"⟩] }
      attributes := .singleton "id" (.string "7") } fun changes =>
    changes.recordAll [.append ⟨"items", none⟩ [.string "tea"], .setIfAbsent ⟨"opened", none⟩ (.boolean true)]
    ).condition (Test.present ⟨"opened", none⟩).build).record fun changes =>
      changes.recordAll [.remove ⟨"coupons", some "coupons[0]"⟩, .increment ⟨"count", none⟩ (.ofInt 1)]

theorem update_lists_actions_basket :
    ∃ request, basketUpdate.build = .ok request ∧
      (∃ parts, (∀ others, Reads others (request.updateExpression.getD "") ↔ others = parts) ∧
        ⟨.set, ["#items = list_append(#items, :items_0)", "#opened = if_not_exists(#opened, :opened_1)",
          "#count = #count + :count_2"]⟩ ∈ parts ∧
        ⟨.remove, ["#coupons[0]"]⟩ ∈ parts) ∧
      request.values.get? ":items_0" = some (.list [.string "tea"]) := by
  have hstart := (Update.Reached.start { name := "Basket", table := "app", key := [⟨"PK", "BASKET#${id}"⟩] }
    (.singleton "id" (.string "7"))).record
      [.append ⟨"items", none⟩ [.string "tea"], .setIfAbsent ⟨"opened", none⟩ (.boolean true)]
  have hcondition := hstart.condition (Chain.builds_test _ _ (.present ⟨"opened", none⟩))
  have hreached := hcondition.record
    [.remove ⟨"coupons", some "coupons[0]"⟩, .increment ⟨"count", none⟩ (.ofInt 1)]
  have hbuild : basketUpdate.build.toOption.isSome = true := by decide +kernel
  obtain ⟨request, hbuild⟩ := Option.isSome_iff_exists.1 hbuild
  have hbuild := eq_ok_of_toOption hbuild
  obtain ⟨-, ⟨parts, hreads, hparts⟩, -, hvalues⟩ := update_lists_actions hreached (by decide +kernel) hbuild
  refine ⟨request, hbuild, ⟨parts, hreads, (hparts _ _).2 ?_, (hparts _ _).2 ?_⟩, ?_⟩
  · decide +kernel
  · decide +kernel
  · exact hvalues ⟨.append ⟨"items", none⟩ [.string "tea"], 0⟩
      (List.mem_append_left _ List.mem_cons_self) _ rfl

end SingleTable
