import SingleTable.Proofs.Condition.TopLevel
import SingleTable.Proofs.Expression.KeyGrammar
import SingleTable.Proofs.Plan.KeyConditions
import SingleTable.Proofs.Plan.Negation
import SingleTable.Proofs.Request.Placeholders

/-!
# Key expressions are read back

The key expression of a plan has one reading, and it is the list of the key conditions in their order
(`key_expression_reads_back`). The text shows a test as it was minted with the token of the attribute replaced
by that of the key, and as the attribute has no mark in its name, its placeholders are left alone.

The maps bind the tokens and the placeholders of the reading and nothing else. A placeholder stands for the
value of the last key condition that shows it, so it is exact as far as no two key conditions show the same
placeholder for different values: always, if one builder made the tests, as it gives no number twice.
-/

set_option autoImplicit false

namespace SingleTable

/-! ## What a key expression shows -/

/-- The test that a test on an attribute becomes on a key, if the key expression has a form for it. -/
def Test.onKey? (test : Test) (key : String) (next : Nat) : Option KeyTest :=
  match test with
  | compare comparison target _ => some (.compare comparison key (valuePlaceholder target.name "" next))
  | between target _ _ =>
    some (.between key (valuePlaceholder target.name "_low" next)
      (valuePlaceholder target.name "_high" (next + 1)))
  | beginsWith target _ => some (.beginsWith key (valuePlaceholder target.name "" next))
  | _ => none

/-- A conjunct becomes a test on the key that it goes to. -/
def Condition.BecomesTest (slots : List Slot) (conjunct : Condition) (part : KeyTest) : Prop :=
  ∃ (test : Test) (next : Nat) (slot : Slot), conjunct = .leaf (test.leaf next) ∧
    conjunct.GoesTo slots slot ∧ test.onKey? slot.name next = some part

/-- A key condition is shown as a test on a key. -/
structure Leaf.ShownAs (leaf : Leaf) (part : KeyTest) : Prop where
  /-- The kinds are the same. -/
  kind : leaf.kind = part.kind
  /-- The key condition is not negated. -/
  positive : leaf.negated = false
  /-- The texts are the same. -/
  text : leaf.text = part.text
  /-- The key condition names the key only. -/
  names : leaf.names = .singleton (nameToken part.key) part.key
  /-- The key condition has values for the placeholders of the test. -/
  placeholders : ∀ placeholder, placeholder ∈ leaf.values.names ↔ placeholder ∈ part.placeholders

/-- A condition is shown as a test on a key if it is a leaf that is. -/
def Condition.ShownAs (condition : Condition) (part : KeyTest) : Prop :=
  ∃ leaf, condition = .leaf leaf ∧ leaf.ShownAs part

/-- The placeholders of the key conditions stand for the values that the key conditions have for them. -/
def Plan.BindsKeys (plan : Plan) : Prop :=
  ∀ leaf ∈ Condition.leavesOfAll plan.keyConditions, ∀ placeholder value,
    leaf.values.get? placeholder = some value → plan.keyExpression.values.get? placeholder = some value

/-- Key conditions that show the same placeholder have the same value for it. -/
def Plan.KeysAgree (plan : Plan) : Prop :=
  ∀ a ∈ Condition.leavesOfAll plan.keyConditions, ∀ b ∈ Condition.leavesOfAll plan.keyConditions,
    ∀ placeholder v w, a.values.get? placeholder = some v → b.values.get? placeholder = some w → v = w

theorem Plan.bindsKeys_iff (plan : Plan) : plan.BindsKeys ↔ plan.KeysAgree := by
  rw [BindsKeys, keyExpression, values_compileKeys]
  constructor
  · intro hbinds a ha b hb placeholder v w hv hw
    have hsame := (hbinds a ha placeholder v hv).symm.trans (hbinds b hb placeholder w hw)
    exact Option.some.inj hsame
  · intro hagree leaf hleaf placeholder value hvalue
    rw [Condition.get?_valuesOf_iff fun a ha b hb v w => hagree a ha b hb placeholder v w]
    exact ⟨leaf, hleaf, hvalue⟩

/-! ## Tests on keys -/

section Tests

variable {test : Test} {next : Nat} {key name : String} {slots : List Slot} {slot : Slot} {part : KeyTest}

/-- A test that the table answers from the order of keys has a form in key expressions. -/
theorem exists_onKey? (h : test.kind ∈ keyKinds) (key : String) (next : Nat) :
    ∃ part, test.onKey? key next = some part := by
  have hkey : test.kind.isKeyTest = true := (isKeyTest_iff _).2 h
  cases test with
  | compare comparison target value => exact ⟨_, rfl⟩
  | between target low high => exact ⟨_, rfl⟩
  | beginsWith target start => exact ⟨_, rfl⟩
  | contains target part => cases hkey
  | present target => cases hkey
  | absent target => cases hkey
  | hasType target kind => cases hkey
  | oneOf target values => cases hkey
  | size comparison target bound => cases hkey

/-- The form of a test keeps its kind and its placeholders, and it is written like the test. -/
theorem onKey?_eq_some (h : test.onKey? key next = some part) :
    part.key = key ∧ part.kind = test.kind ∧ part.placeholders = (test.bound next).map Prod.fst ∧
      part.text = test.text (nameToken key) ((test.bound next).map Prod.fst) ∧ test.operands ≠ [] := by
  cases test with
  | compare comparison target value =>
    cases h
    exact ⟨rfl, rfl, rfl, rfl, List.cons_ne_nil _ _⟩
  | between target low high =>
    cases h
    refine ⟨rfl, rfl, rfl, ?_, List.cons_ne_nil _ _⟩
    simp [KeyTest.text, Test.text, Test.bound, Test.operands, Test.target, String.append_assoc]
  | beginsWith target start =>
    cases h
    exact ⟨rfl, rfl, rfl, rfl, List.cons_ne_nil _ _⟩
  | contains target part => cases h
  | present target => cases h
  | absent target => cases h
  | hasType target kind => cases h
  | oneOf target values => cases h
  | size comparison target bound => cases h

/-- The placeholder of a name that is one token is a placeholder of the grammar. -/
theorem isPlaceholder_valuePlaceholder {role : String} (hname : IsTokenName name) (hrole : IsPlainText role)
    (number : Nat) : IsPlaceholder (valuePlaceholder name role number) := by
  refine ⟨name ++ (role ++ "_" ++ toString number), ⟨?_, ?_⟩, ?_⟩
  · intro hempty
    exact hname.nonempty (String.append_eq_empty_iff.1 hempty).1
  · intro c hc
    rw [String.toList_append, List.mem_append] at hc
    rcases hc with hc | hc
    · exact hname.chars c hc
    · exact (plain_placeholderEnd hrole number c hc).1
  · simp only [valuePlaceholder, String.append_assoc]

/-- A placeholder of a name without a mark is left alone when a token is renamed. -/
theorem renameToken_valuePlaceholder {role old new : String} (hname : '#' ∉ name.toList)
    (hrole : IsPlainText role) (number : Nat) :
    renameToken (valuePlaceholder name role number) old new = valuePlaceholder name role number := by
  rw [renameToken_eq_self_iff, ← shown_name, shown_placeholder_of_no_mark hname hrole]
  intro hmem
  cases hmem

/-- The key condition of a test on a top-level attribute is shown as the form of the test on the key. -/
theorem shownAs_of_rewritten {conjuncts : List Condition} {rewritten : Leaf} (hpath : test.target.path = none)
    (hkey : IsPlainName slot.name) (hgoes : test.GoesTo slots next name slot)
    (h : (test.leaf next).RewrittenOn conjuncts name slot rewritten) :
    ∃ part, test.onKey? slot.name next = some part ∧ part.IsGrammatical ∧ rewritten.ShownAs part := by
  obtain ⟨part, hpart⟩ := exists_onKey? hgoes.kind slot.name next
  obtain ⟨hname, hkind, hplaceholders, htext, hvalues⟩ := onKey?_eq_some hpart
  -- The name of the attribute is the one that the test shows, so it is one token and has no mark.
  obtain ⟨hown, htoken, hmark⟩ := (showsOnly_iff_of_operands hpath hvalues).1 hgoes.only
  have hmade := h.madeOn hgoes
  refine ⟨part, hpart, ⟨hname ▸ hkey.isTokenName, ?_, ?_⟩, ⟨?_, h.positive, ?_, ?_, ?_⟩⟩
  · intro placeholder hmem
    rw [hplaceholders] at hmem
    obtain ⟨⟨placeholder, value⟩, hbound, rfl⟩ := List.mem_map.1 hmem
    obtain ⟨i, role, hget, rfl⟩ := mem_bound_iff.1 hbound
    exact isPlaceholder_valuePlaceholder (hown ▸ htoken) (plain_role (List.mem_of_getElem? hget)) _
  · rw [hkind]
    exact (isKeyTest_iff _).2 hgoes.kind
  · rw [hmade.kind, hkind]
  · have hkept : (test.bound next).map (fun bound => renameToken bound.1 (nameToken name)
        (nameToken slot.name)) = (test.bound next).map Prod.fst := by
      apply List.map_congr_left
      rintro ⟨placeholder, value⟩ hbound
      obtain ⟨i, role, hget, rfl⟩ := mem_bound_iff.1 hbound
      exact renameToken_valuePlaceholder (hown ▸ hmark) (plain_role (List.mem_of_getElem? hget)) _
    rw [hmade.text, hmade.bare.2 (Handle.not_isNested_of_no_path hpath), hkept, htext]
  · rw [hname]
    exact h.names
  · intro placeholder
    rw [h.placeholders, hplaceholders]
    exact ((entries_leaf_perm test next).map Prod.fst).mem_iff

end Tests

/-! ## Expressions of shown key conditions -/

section Expressions

variable {keys : List Condition} {parts : List KeyTest}

/-- A key condition that is shown as a test names the key of the test. -/
theorem Leaf.ShownAs.get?_names_iff {leaf : Leaf} {part : KeyTest} (h : leaf.ShownAs part)
    {token name : String} :
    leaf.names.get? token = some name ↔ token = nameToken part.key ∧ name = part.key := by
  rw [h.names, Dict.get?_singleton, Option.ite_none_right_eq_some, Option.some_inj, eq_comm (a := name)]

/-- The leaves of key conditions are shown in the same order. -/
theorem shownAs_leavesOfAll (h : List.Forall₂ Condition.ShownAs keys parts) :
    List.Forall₂ Leaf.ShownAs (Condition.leavesOfAll keys) parts := by
  induction h with
  | nil => exact .nil
  | cons hhead _ ih =>
    obtain ⟨leaf, rfl, hshown⟩ := hhead
    exact .cons hshown ih

/-- The expression of key conditions consists of the tests that they are shown as. -/
theorem text_compileKeys (h : List.Forall₂ Condition.ShownAs keys parts) :
    (compileKeys keys).text = " AND ".intercalate (parts.map KeyTest.text) := by
  have htexts : ((keys.map Condition.compile).filter (!·.isEmpty)).map Fragment.text =
      parts.map KeyTest.text := by
    induction h with
    | nil => rfl
    | @cons key part _ _ hhead _ ih =>
      obtain ⟨leaf, rfl, hshown⟩ := hhead
      have htext : (Condition.leaf leaf).compile.text = part.text := by
        rw [Condition.compile, Condition.text, hshown.positive, Condition.negatedText_false, hshown.text]
      have hsome : (!(Condition.leaf leaf).compile.isEmpty) = true := by
        rw [Fragment.isEmpty, htext]
        simpa using part.text_ne_empty
      rw [List.map_cons, List.filter_cons, if_pos hsome, List.map_cons, List.map_cons, htext, ih]
  exact congrArg (" AND ".intercalate ·) htexts

/-- The tokens of the keys are bound to the keys. -/
theorem get?_names_compileKeys (h : List.Forall₂ Condition.ShownAs keys parts) {token name : String} :
    (compileKeys keys).names.get? token = some name ↔
      ∃ part ∈ parts, token = nameToken part.key ∧ name = part.key := by
  have hleaves := shownAs_leavesOfAll h
  rw [names_compileKeys, Condition.get?_namesOf_iff]
  · constructor
    · rintro ⟨leaf, hleaf, hname⟩
      obtain ⟨part, hpart, hshown⟩ := exists_right_of_mem hleaves hleaf
      exact ⟨part, hpart, hshown.get?_names_iff.1 hname⟩
    · rintro ⟨part, hpart, hname⟩
      obtain ⟨leaf, hleaf, hshown⟩ := exists_left_of_mem hleaves hpart
      exact ⟨leaf, hleaf, hshown.get?_names_iff.2 hname⟩
  -- A token is that of one name only.
  · intro a ha b hb v w hv hw
    obtain ⟨part, -, hshown⟩ := exists_right_of_mem hleaves ha
    obtain ⟨other, -, hshown'⟩ := exists_right_of_mem hleaves hb
    obtain ⟨htoken, rfl⟩ := hshown.get?_names_iff.1 hv
    obtain ⟨htoken', rfl⟩ := hshown'.get?_names_iff.1 hw
    exact nameToken_inj (htoken.symm.trans htoken')

/-- A placeholder of key conditions stands for the value of the last one that shows it. -/
theorem get?_values_compileKeys (keys : List Condition) (placeholder : String) :
    (compileKeys keys).values.get? placeholder =
      (Condition.leavesOfAll keys).reverse.findSome? fun leaf => leaf.values.get? placeholder := by
  rw [values_compileKeys]
  exact Dict.get?_foldl_extend Leaf.values _ _

/-- The placeholders of key conditions are those of the tests that they are shown as. -/
theorem mem_names_values_compileKeys (h : List.Forall₂ Condition.ShownAs keys parts) {placeholder : String} :
    placeholder ∈ (compileKeys keys).values.names ↔ ∃ part ∈ parts, placeholder ∈ part.placeholders := by
  have hleaves := shownAs_leavesOfAll h
  have hsome : placeholder ∈ (compileKeys keys).values.names ↔
      ∃ leaf ∈ Condition.leavesOfAll keys, placeholder ∈ leaf.values.names := by
    simp only [Dict.mem_names_iff, get?_values_compileKeys, ← Option.isSome_iff_exists, List.isSome_findSome?,
      List.any_reverse, List.any_eq_true]
  rw [hsome]
  constructor
  · rintro ⟨leaf, hleaf, hmem⟩
    obtain ⟨part, hpart, hshown⟩ := exists_right_of_mem hleaves hleaf
    exact ⟨part, hpart, (hshown.placeholders placeholder).1 hmem⟩
  · rintro ⟨part, hpart, hmem⟩
    obtain ⟨leaf, hleaf, hshown⟩ := exists_left_of_mem hleaves hpart
    exact ⟨leaf, hleaf, (hshown.placeholders placeholder).2 hmem⟩

end Expressions

/-! ## Plans -/

/-- Related lists whose members are related to something between them are related to a list of it. -/
theorem exists_forall₂_of_forall₂ {α β γ : Type} {R : α → β → Prop} {P : α → γ → Prop} {Q : β → γ → Prop}
    {left : List α} {right : List β} (h : List.Forall₂ R left right)
    (hR : ∀ a b, R a b → ∃ c, P a c ∧ Q b c) :
    ∃ between, List.Forall₂ P left between ∧ List.Forall₂ Q right between := by
  induction h with
  | nil => exact ⟨[], .nil, .nil⟩
  | cons hhead _ ih =>
    obtain ⟨c, hP, hQ⟩ := hR _ _ hhead
    obtain ⟨rest, hleft, hright⟩ := ih
    exact ⟨c :: rest, .cons hP hleft, .cons hQ hright⟩

/-- Tests on keys are what the key expression of a plan of a conjunction says. -/
structure Plan.ReadAs (plan : Plan) (slots : List Slot) (conjuncts : List Condition) (parts : List KeyTest) :
    Prop where
  /-- The tests are the one reading of the text. -/
  reading : ∀ others, KeyReads others plan.keyExpression.text ↔ others = parts
  /-- They are the forms of the conjuncts that go to keys, in order. -/
  tests : List.Forall₂ (Condition.BecomesTest slots)
    (conjuncts.filter fun conjunct => conjunct.isPushable slots) parts
  /-- The key conditions are these conjuncts with the keys that the templates give for their values. -/
  rewritten : List.Forall₂ (Condition.RewrittenTo slots conjuncts)
    (conjuncts.filter fun conjunct => conjunct.isPushable slots) plan.keyConditions
  /-- The key conditions are shown as the tests. -/
  shown : List.Forall₂ Condition.ShownAs plan.keyConditions parts
  /-- The tokens of the keys are bound to the keys, and no other token is bound. -/
  names : ∀ token name, plan.keyExpression.names.get? token = some name ↔
    ∃ part ∈ parts, token = nameToken part.key ∧ name = part.key
  /-- The placeholders of the tests are bound, and no other one is. -/
  placeholders : ∀ placeholder, placeholder ∈ plan.keyExpression.values.names ↔
    ∃ part ∈ parts, placeholder ∈ part.placeholders
  /-- A placeholder stands for the value of the last key condition that shows it. -/
  values : ∀ placeholder, plan.keyExpression.values.get? placeholder =
    (Condition.leavesOfAll plan.keyConditions).reverse.findSome? fun leaf => leaf.values.get? placeholder

section Plans

variable {planner : Planner} {condition : Condition} {conjuncts : List Condition} {plan : Plan}
  {warnings : List Warning}

/-- Key conditions that are shown as grammatical tests are read back as these tests. -/
theorem readAs_of_shown {slots : List Slot} {parts : List KeyTest}
    (hgrammatical : ∀ part ∈ parts, part.IsGrammatical)
    (htests : List.Forall₂ (Condition.BecomesTest slots)
      (conjuncts.filter fun conjunct => conjunct.isPushable slots) parts)
    (hrewritten : List.Forall₂ (Condition.RewrittenTo slots conjuncts)
      (conjuncts.filter fun conjunct => conjunct.isPushable slots) plan.keyConditions)
    (hshown : List.Forall₂ Condition.ShownAs plan.keyConditions parts) :
    plan.ReadAs slots conjuncts parts := by
  have hreads : KeyReads parts plan.keyExpression.text := ⟨hgrammatical, (text_compileKeys hshown).symm⟩
  refine ⟨fun others => ⟨fun hothers => hothers.unique hreads, ?_⟩, htests, hrewritten, hshown, ?_, ?_, ?_⟩
  · rintro rfl
    exact hreads
  · intro token name
    exact get?_names_compileKeys hshown
  · intro placeholder
    exact mem_names_values_compileKeys hshown
  · exact get?_values_compileKeys plan.keyConditions

/-- The key expression of a conjunction of top-level tests is read as the forms of its conjuncts. -/
theorem exists_readAs_of_conjunction (hkeys : ∀ slot ∈ planner.slots, IsPlainName slot.name)
    (htop : condition.LeavesFrom Leaf.IsTopLevel) (hgroup : condition.conjunction? = some conjuncts)
    (hplan : planner.plan condition = .ok (plan, warnings)) :
    ∃ parts, plan.ReadAs planner.slots conjuncts parts := by
  have hrewritten := Planner.rewrittenTo_of_plan hgroup hplan
  -- Each key condition is shown as the form of its conjunct.
  have hforms : ∀ conjunct key, conjunct ∈ conjuncts ∧ conjunct.RewrittenTo planner.slots conjuncts key →
      ∃ part : KeyTest, conjunct.BecomesTest planner.slots part ∧ part.IsGrammatical ∧ key.ShownAs part := by
    rintro _ _ ⟨hmem, leaf, name, slot, rewritten, rfl, hgoes, rfl, hrewritten⟩
    obtain ⟨test, next, hpath, rfl⟩ := isTopLevel_of_leavesFrom htop hgroup leaf hmem hgoes.positive
    have hkey := hkeys slot (List.mem_of_find?_eq_some hgoes.first)
    obtain ⟨part, hpart, hgrammatical, hshown⟩ :=
      shownAs_of_rewritten hpath hkey (goesTo_leaf_iff.1 hgoes) hrewritten
    exact ⟨part, ⟨test, next, slot, rfl, ⟨_, name, rfl, hgoes⟩, hpart⟩, hgrammatical, rewritten, rfl, hshown⟩
  obtain ⟨parts, htests, hshown⟩ := exists_forall₂_of_forall₂ hrewritten hforms
  refine ⟨parts, readAs_of_shown ?_ htests (hrewritten.imp fun _ _ h => h.2) (hshown.imp fun _ _ h => h.2)⟩
  intro part hpart
  obtain ⟨key, -, hgrammatical, -⟩ := exists_left_of_mem hshown hpart
  exact hgrammatical

/-- If one builder made the tests, the placeholders of the key conditions stand for their values. -/
theorem bindsKeys_of_minted {first next : Nat} {made : List (Test × Nat)} (hminted : Minted first made next)
    (hmade : condition.LeavesFrom (IsMade made)) (hplan : planner.plan condition = .ok (plan, warnings)) :
    plan.BindsKeys := by
  cases hgroup : condition.conjunction? with
  | none =>
    rw [Planner.plan_of_no_conjunction _ hgroup] at hplan
    cases hplan
    intro leaf hleaf
    cases hleaf
  | some conjuncts =>
    have hapart : Apart ([] ++ made) next := (Apart.empty first).append hminted
    have hsplits : plan.Splits made planner.slots conjuncts := by
      refine .of_plan hapart (fun leaf hleaf => ?_) hgroup hplan
      obtain ⟨origin, ⟨entry, hentry, rfl⟩, heq⟩ := hmade leaf hleaf
      exact ⟨entry, hentry, heq⟩
    intro leaf hleaf placeholder value hvalue
    obtain ⟨operand, hplaceholder, hkey⟩ := hsplits.exists_operand (hsplits.mem_keys_iff.1 hleaf) hvalue
    exact hsplits.get?_keyExpression_iff.2 ⟨operand, hplaceholder, hkey⟩

/-- **A key expression is read back.** Take a plan of any condition that is made of tests on top-level
attributes, against keys with plain names. Its key expression has one reading, which is the list of its key
conditions in order: each is the test of a conjunct on the key that the conjunct goes to, with the placeholders
of the test. The maps bind the tokens of the keys and the placeholders of the reading, and nothing else. A
placeholder stands for the value of the last key condition that shows it, and so all of them are exact if and
only if no two key conditions show one placeholder for different values, as it is if one builder made the
tests. The expression is empty if and only if there is no key condition. -/
theorem key_expression_reads_back (hkeys : ∀ slot ∈ planner.slots, IsPlainName slot.name)
    (htop : condition.LeavesFrom Leaf.IsTopLevel) (hplan : planner.plan condition = .ok (plan, warnings)) :
    (∃ parts, plan.ReadAs planner.slots (condition.conjunction?.getD []) parts) ∧
    (plan.BindsKeys ↔ plan.KeysAgree) ∧
    (∀ first made next, Minted first made next → condition.LeavesFrom (IsMade made) → plan.BindsKeys) ∧
    (plan.keyExpression.text = "" ↔ plan.keyConditions = []) := by
  have hread : ∃ parts, plan.ReadAs planner.slots (condition.conjunction?.getD []) parts := by
    cases hgroup : condition.conjunction? with
    | some conjuncts => exact exists_readAs_of_conjunction hkeys htop hgroup hplan
    -- A condition without conjuncts has no key conditions, and the empty text has the empty reading.
    | none =>
      rw [Planner.plan_of_no_conjunction _ hgroup] at hplan
      cases hplan
      exact ⟨[], readAs_of_shown (fun part hpart => nomatch hpart) .nil .nil .nil⟩
  refine ⟨hread, plan.bindsKeys_iff, fun first made next hminted hmade => ?_, ?_⟩
  · exact bindsKeys_of_minted hminted hmade hplan
  · obtain ⟨parts, hparts⟩ := hread
    have htext : plan.keyExpression.text = " AND ".intercalate (parts.map KeyTest.text) :=
      text_compileKeys hparts.shown
    rw [htext, KeyTest.joined_eq_empty_iff]
    have hlength := hparts.shown.length_eq
    rw [← List.length_eq_zero_iff, ← hlength, List.length_eq_zero_iff]

end Plans

/-! ### Readings of a meter in May -/

/-- The conditions that tests make, each with the number from which its placeholders count. -/
def conditionsOf (entries : List (Test × Nat)) : List Condition :=
  entries.map fun entry => .leaf (entry.1.leaf entry.2)

theorem leavesFrom_conditionsOf {made : Leaf → Prop} {entries : List (Test × Nat)}
    (h : ∀ entry ∈ entries, made (entry.1.leaf entry.2)) :
    (Condition.all (conditionsOf entries)).LeavesFrom made := by
  apply Condition.Built.leavesFrom
  refine .all fun conjunct hconjunct => ?_
  obtain ⟨entry, hentry, rfl⟩ := List.mem_map.1 hconjunct
  exact .leaf (h entry hentry)

theorem topLevel_conditionsOf {entries : List (Test × Nat)}
    (h : ∀ entry ∈ entries, entry.1.target.path = none) :
    (Condition.all (conditionsOf entries)).LeavesFrom Leaf.IsTopLevel :=
  leavesFrom_conditionsOf fun entry hentry => ⟨entry.1, entry.2, h entry hentry, rfl⟩

/-- The tests for the readings of one meter in the first days of May, as one builder makes them. -/
def firstOfMay : List (Test × Nat) :=
  [(.compare .eq ⟨"house", none⟩ (.string "12"), 0), (.compare .eq ⟨"meter", none⟩ (.string "gas"), 1),
    (.between ⟨"time", none⟩ (.string "2024-05-01") (.string "2024-05-09"), 2),
    (.beginsWith ⟨"time", none⟩ (.string "2024-05"), 4)]

/-- What their key expression says. -/
def firstOfMayReading : List KeyTest :=
  [.compare .eq "PK" ":house_0", .compare .eq "PK" ":meter_1", .between "SK" ":time_low_2" ":time_high_3",
    .beginsWith "SK" ":time_4"]

theorem minted_firstOfMay : Minted 0 firstOfMay 5 :=
  (((Minted.start.operator _).operator _).operator _).operator _

/-- The `AND` of the range is told from those between the key conditions. -/
theorem key_expression_reads_back_may :
    ∃ plan : Plan, (Planner.ofModel readings).plan (.all (conditionsOf firstOfMay)) = .ok (plan, []) ∧
      plan.keyExpression.text = "#PK = :house_0 AND #PK = :meter_1 AND " ++
        "#SK BETWEEN :time_low_2 AND :time_high_3 AND begins_with(#SK, :time_4)" ∧
      plan.ReadAs (Planner.ofModel readings).slots (conditionsOf firstOfMay) firstOfMayReading ∧
      plan.BindsKeys := by
  have hplan : ((Planner.ofModel readings).plan (.all (conditionsOf firstOfMay))).toOption.map
      (fun split => (split.2, split.1.keyExpression.text)) =
        some ([], "#PK = :house_0 AND #PK = :meter_1 AND " ++
          "#SK BETWEEN :time_low_2 AND :time_high_3 AND begins_with(#SK, :time_4)") := by
    decide +kernel
  obtain ⟨⟨plan, warnings⟩, hplan, hsplit⟩ := exists_ok_of_map_toOption hplan
  obtain ⟨rfl, htext⟩ := Prod.mk.inj hsplit
  have htop : (Condition.all (conditionsOf firstOfMay)).LeavesFrom Leaf.IsTopLevel :=
    topLevel_conditionsOf (by decide)
  have hmade : (Condition.all (conditionsOf firstOfMay)).LeavesFrom (IsMade firstOfMay) :=
    leavesFrom_conditionsOf fun entry hentry => ⟨entry, hentry, rfl⟩
  obtain ⟨⟨parts, hparts⟩, -, hbinds, -⟩ := key_expression_reads_back (by decide +kernel) htop hplan
  have hreading : firstOfMayReading = parts := by
    rw [← hparts.reading, htext]
    decide +kernel
  exact ⟨plan, hplan, htext, hreading ▸ hparts, hbinds 0 firstOfMay 5 minted_firstOfMay hmade⟩

/-- Tests for the readings between two times, each made by a builder of its own. -/
def betweenTests : List (Test × Nat) :=
  [(.compare .gt ⟨"time", none⟩ (.string "2024"), 0), (.compare .lt ⟨"time", none⟩ (.string "2025"), 0)]

/-- Not every placeholder of a reading stands for its own value: two builders may give one number to tests on
the same attribute. -/
theorem shared_placeholders_not_bound :
    ¬ ∀ (planner : Planner) (condition : Condition) (plan : Plan) (warnings : List Warning),
      (∀ slot ∈ planner.slots, IsPlainName slot.name) → condition.LeavesFrom Leaf.IsTopLevel →
        planner.plan condition = .ok (plan, warnings) → plan.BindsKeys := by
  intro hall
  have hplan : ((Planner.ofModel readings).plan (.all (conditionsOf betweenTests))).toOption.map
      (fun split => (split.1.keyConditions.head?, split.1.keyExpression.values.get? ":time_0")) =
        some (some (.leaf ⟨"#SK > :time_0", .singleton "#SK" "SK", .singleton ":time_0" (.string "AT#2024"),
          false, .compare .gt⟩), some (.string "AT#2025")) := by
    decide +kernel
  obtain ⟨⟨plan, warnings⟩, hplan, hsplit⟩ := exists_ok_of_map_toOption hplan
  obtain ⟨hfirst, hvalue⟩ := Prod.mk.inj hsplit
  have hbinds := hall _ _ _ _ (by decide +kernel) (topLevel_conditionsOf (by decide)) hplan
  have hmem := Condition.mem_leavesOfAll_iff.2 ⟨_, List.mem_of_head? hfirst, List.mem_singleton_self _⟩
  have hbound := hbinds _ hmem ":time_0" (.string "AT#2024") rfl
  rw [hvalue] at hbound
  revert hbound
  decide

end SingleTable
