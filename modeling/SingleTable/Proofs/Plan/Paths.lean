import SingleTable.Proofs.Condition.Attribute
import SingleTable.Proofs.Condition.Built
import SingleTable.Proofs.Plan.Routing

/-!
# Nested tests and keys

The planner reads the attribute of a leaf off its text, and so a test on a nested target is about an attribute
too, if the steps of the target repeat one name, as in `tags[0]` or `a.a`. Such a test goes to a key like any
other (`Test.GoesTo`), its equalities complete templates, and its key condition reaches into the key: the
operand is the bare key exactly if the target is not nested (`key_conditions_of_tests`).
-/

set_option autoImplicit false

namespace SingleTable

/-- The leaves that tests make. -/
def Leaf.IsTest (leaf : Leaf) : Prop := ∃ test : Test, ∃ next, leaf = test.leaf next

/-- A test goes to the first key whose template refers to the one name that it shows. -/
structure Test.GoesTo (slots : List Slot) (test : Test) (next : Nat) (name : String) (slot : Slot) : Prop where
  /-- The table answers the test from the order of keys. -/
  kind : test.kind ∈ keyKinds
  /-- The test shows one name only. -/
  only : test.ShowsOnly next name
  /-- The first key whose template refers to the name. -/
  first : slots.find? (fun slot => slot.template.refersTo name) = some slot

/-- The operand of a test on a key, which stands in the place of a name. -/
def Test.keyOperand (test : Test) (name : String) (slot : Slot) : String :=
  renameToken test.target.operand.text (nameToken name) (nameToken slot.name)

/-- A key condition makes a test on the key that the test goes to. -/
structure Test.MadeOn (slots : List Slot) (test : Test) (next : Nat) (name : String) (slot : Slot)
    (key : Leaf) : Prop where
  /-- The test goes to the key. -/
  goes : test.GoesTo slots next name slot
  /-- The kind is that of the test. -/
  kind : key.kind = test.kind
  /-- Only the key is named. -/
  names : key.names = .singleton (nameToken slot.name) slot.name
  /-- The text is that of the test with the key in the place of the name. -/
  text : key.text = test.text (test.keyOperand name slot)
    ((test.bound next).map fun bound => renameToken bound.1 (nameToken name) (nameToken slot.name))
  /-- The operand is the bare key unless the target is nested. -/
  bare : test.keyOperand name slot = nameToken slot.name ↔ ¬ test.target.IsNested

section Tests

variable {slots : List Slot} {test : Test} {next : Nat} {name : String} {slot : Slot}

theorem goesTo_leaf_iff : (test.leaf next).GoesTo slots name slot ↔ test.GoesTo slots next name slot := by
  constructor
  · rintro ⟨-, hkind, htested, hfirst⟩
    rw [leaf_kind] at hkind
    exact ⟨hkind, (attribute?_leaf_iff (isVoid_eq_false hkind)).1 htested, hfirst⟩
  · rintro ⟨hkind, honly, hfirst⟩
    refine ⟨leaf_negated test next, ?_, (attribute?_leaf_iff (isVoid_eq_false hkind)).2 honly, hfirst⟩
    rwa [leaf_kind]

/-- The equality that the leaf of a test states. -/
theorem equality?_leaf_iff {value : Value} :
    (Condition.leaf (test.leaf next)).equality? = some (name, value) ↔
      (∃ target, test = .compare .eq target value) ∧ test.ShowsOnly next name := by
  rw [equality?_iff, Condition.valueOf?, leaf_negated, leaf_kind]
  constructor
  · intro h
    split at h
    · rename_i hequal
      obtain ⟨-, hkind, htested⟩ := hequal
      rw [attribute?_leaf_iff (isVoid_eq_false (hkind ▸ by decide))] at htested
      refine ⟨?_, htested⟩
      cases test with
      | compare comparison target stated =>
        cases hkind
        have hvalue : stated = value := Option.some.inj h
        exact ⟨target, by rw [hvalue]⟩
      | between target low high => cases hkind
      | beginsWith target start => cases hkind
      | contains target part => cases hkind
      | present target => cases hkind
      | absent target => cases hkind
      | hasType target kind => cases hkind
      | oneOf target values => cases hkind
      | size comparison target bound => cases hkind
    · cases h
  · rintro ⟨⟨target, rfl⟩, honly⟩
    rw [if_pos ⟨rfl, rfl, (attribute?_leaf_iff rfl).2 honly⟩]
    rfl

/-- The key condition of a leaf makes its test on the key. -/
theorem Leaf.RewrittenOn.madeOn {conjuncts : List Condition} {rewritten : Leaf}
    (h : (test.leaf next).RewrittenOn conjuncts name slot rewritten)
    (hgoes : test.GoesTo slots next name slot) : test.MadeOn slots next name slot rewritten := by
  refine ⟨hgoes, ?_, h.names, ?_, renameToken_operand_iff hgoes.only.step hgoes.only.token⟩
  · rw [h.kind, leaf_kind]
  · rw [h.text, text_leaf (isVoid_eq_false hgoes.kind), renameToken_text, List.map_map]
    rfl

end Tests

/-! ## Plans -/

/-- A leaf of a conjunction that goes to a key was made by a test. -/
theorem isTest_of_goesTo {condition : Condition} {conjuncts : List Condition} {slots : List Slot} {leaf : Leaf}
    {name : String} {slot : Slot} (hleaves : condition.LeavesFrom fun leaf => leaf.IsTest ∨ leaf.kind = .raw)
    (hgroup : condition.conjunction? = some conjuncts) (hleaf : .leaf leaf ∈ conjuncts)
    (hgoes : leaf.GoesTo slots name slot) : leaf.IsTest := by
  obtain ⟨origin, horigin, heq⟩ :=
    hleaves leaf (mem_leaves_of_conjunct hgroup hleaf (List.mem_singleton_self leaf))
  rcases horigin with ⟨test, next, rfl⟩ | hraw
  · refine ⟨test, next, ?_⟩
    rw [heq, hgoes.positive, ← leaf_negated test next]
  -- A text written by hand is of no kind that keys answer.
  · have hkind := hgoes.kind
    rw [heq, hraw] at hkind
    exact absurd hkind (by decide)

/-- A key condition makes the test of a conjunct on the key that the test goes to. -/
def Condition.MadeOnKey (slots : List Slot) (conjunct key : Condition) : Prop :=
  ∃ (test : Test) (next : Nat) (name : String) (slot : Slot) (made : Leaf),
    conjunct = .leaf (test.leaf next) ∧ key = .leaf made ∧ test.MadeOn slots next name slot made

/-- The conjuncts that go to keys have one key condition each, which makes their test. -/
theorem madeOnKey_of_plan {planner : Planner} {condition : Condition} {conjuncts : List Condition}
    {plan : Plan} {warnings : List Warning}
    (hleaves : condition.LeavesFrom fun leaf => leaf.IsTest ∨ leaf.kind = .raw)
    (hgroup : condition.conjunction? = some conjuncts)
    (hplan : planner.plan condition = .ok (plan, warnings)) :
    List.Forall₂ (Condition.MadeOnKey planner.slots)
      (conjuncts.filter fun conjunct => conjunct.isPushable planner.slots) plan.keyConditions := by
  refine (Planner.rewrittenTo_of_plan hgroup hplan).imp ?_
  rintro _ _ ⟨hmem, leaf, name, slot, rewritten, rfl, hgoes, rfl, hrewritten⟩
  obtain ⟨test, next, rfl⟩ := isTest_of_goesTo hleaves hgroup hmem hgoes
  exact ⟨test, next, name, slot, rewritten, rfl, rfl, hrewritten.madeOn (goesTo_leaf_iff.1 hgoes)⟩

/-- **Where nested tests go.** Take a plan of any condition that is made of tests and of texts written by hand.
A condition that is no conjunction is a filter as a whole. Of a conjunction, each key condition makes the test
of a conjunct with the key in the place of the name, and the operand is the bare key exactly if the target of
the test is not nested. A test of the conjunction is left to the filters exactly if it does not go to a key,
and it states an equality exactly if it is one and shows one name only; of a plain test this is the name that
all steps of its target have. -/
theorem key_conditions_of_tests {planner : Planner} {condition : Condition} {plan : Plan}
    {warnings : List Warning} (hleaves : condition.LeavesFrom fun leaf => leaf.IsTest ∨ leaf.kind = .raw)
    (hplan : planner.plan condition = .ok (plan, warnings)) :
    (condition.conjunction? = none → plan = .filterOnly condition) ∧
    ∀ conjuncts, condition.conjunction? = some conjuncts →
      List.Forall₂ (Condition.MadeOnKey planner.slots)
        (conjuncts.filter fun conjunct => conjunct.isPushable planner.slots) plan.keyConditions ∧
      ∀ (test : Test) (next : Nat), .leaf (test.leaf next) ∈ conjuncts →
        (.leaf (test.leaf next) ∈ plan.filterConditions ↔
          ¬ ∃ name slot, test.GoesTo planner.slots next name slot) ∧
        (∀ name value, (Condition.leaf (test.leaf next)).equality? = some (name, value) ↔
          (∃ target, test = .compare .eq target value) ∧ test.ShowsOnly next name) ∧
        (test.target.IsPlain → ∀ name, test.ShowsOnly next name ↔
          ∀ step ∈ test.target.steps, step.name = name) := by
  constructor
  · intro hnone
    rw [Planner.plan_of_no_conjunction _ hnone] at hplan
    cases hplan
    rfl
  · intro conjuncts hgroup
    refine ⟨madeOnKey_of_plan hleaves hgroup hplan, fun test next hmem => ⟨?_, ?_, ?_⟩⟩
    -- The filters are the conjuncts that go to no key.
    · rw [Planner.plan_of_conjunction _ hgroup] at hplan
      rw [(Planner.planAll_ok hplan).1, List.mem_filter, Bool.not_eq_true', ← Bool.not_eq_true,
        isPushable_leaf_iff]
      simp only [goesTo_leaf_iff]
      exact and_iff_right hmem
    · intro name value
      exact equality?_leaf_iff
    · intro hplain name
      exact showsOnly_iff_of_plain hplain

/-! ### Tags of an article -/

/-- Tags with the articles that have them. -/
def taggings : Model where
  name := "Tagging"
  table := "app"
  key := [⟨"PK", "TAG#${tags}"⟩, ⟨"SK", "${note}#${tags}"⟩]

/-- A test on the first of several tags. -/
def firstTagTest : Test := .compare .eq ⟨"tags", some "tags[0]"⟩ (.string "sea")

/-- A test on a note in a note. -/
def noteTest : Test := .beginsWith ⟨"note", some "note.note"⟩ (.string "A")

/-- A test on the city of an address. -/
def cityTest : Test := .compare .eq ⟨"city", some "address.city"⟩ (.string "Rome")

/-- The three tests together. -/
def nestedCondition : Condition :=
  .all [.leaf (firstTagTest.leaf 0), .leaf (noteTest.leaf 1), .leaf (cityTest.leaf 2)]

theorem key_conditions_of_nested :
    ∃ plan : Plan, (Planner.ofModel taggings).plan nestedCondition = .ok (plan, []) ∧
      plan.keyExpression.text = "#PK[0] = :tags_0 AND begins_with(#SK.#SK, :note_1)" ∧
      plan.keyExpression.values.get? ":note_1" = some (.string "A#sea") ∧
      (∃ name slot, firstTagTest.GoesTo (Planner.ofModel taggings).slots 0 name slot) ∧
      (∃ name slot, noteTest.GoesTo (Planner.ofModel taggings).slots 1 name slot) ∧
      ¬ (∃ name slot, cityTest.GoesTo (Planner.ofModel taggings).slots 2 name slot) ∧
      firstTagTest.ShowsOnly 0 "tags" ∧ noteTest.ShowsOnly 1 "note" := by
  have hplan : ((Planner.ofModel taggings).plan nestedCondition).toOption.map (fun split =>
      (split.2, split.1.keyExpression.text, split.1.keyExpression.values.get? ":note_1",
        split.1.filterConditions)) =
      some ([], "#PK[0] = :tags_0 AND begins_with(#SK.#SK, :note_1)", some (.string "A#sea"),
        [.leaf (cityTest.leaf 2)]) := by decide +kernel
  obtain ⟨⟨plan, warnings⟩, hplan, hsplit⟩ := exists_ok_of_map_toOption hplan
  obtain ⟨rfl, htext, hvalue, hfilters⟩ : warnings = [] ∧ _ ∧ _ ∧ _ := by
    simpa only [Prod.mk.injEq] using hsplit
  have hbuilt : nestedCondition.Built fun leaf => leaf.IsTest ∨ leaf.kind = .raw := by
    refine .all fun conjunct hconjunct => ?_
    simp only [List.mem_cons, List.not_mem_nil, or_false] at hconjunct
    obtain rfl | rfl | rfl := hconjunct
    · exact .leaf (Or.inl ⟨_, 0, rfl⟩)
    · exact .leaf (Or.inl ⟨_, 1, rfl⟩)
    · exact .leaf (Or.inl ⟨_, 2, rfl⟩)
  obtain ⟨-, hconjunction⟩ := key_conditions_of_tests hbuilt.leavesFrom hplan
  obtain ⟨-, htests⟩ := hconjunction _ rfl
  obtain ⟨htag, -, htagOnly⟩ := htests firstTagTest 0 List.mem_cons_self
  obtain ⟨hnote, -, hnoteOnly⟩ := htests noteTest 1 (List.mem_cons_of_mem _ List.mem_cons_self)
  obtain ⟨hcity, -, -⟩ := htests cityTest 2
    (List.mem_cons_of_mem _ (List.mem_cons_of_mem _ List.mem_cons_self))
  rw [hfilters] at htag hnote hcity
  refine ⟨plan, hplan, htext, hvalue, ?_, ?_, hcity.1 List.mem_cons_self, ?_, ?_⟩
  · exact not_not.1 (mt htag.2 (by decide +kernel))
  · exact not_not.1 (mt hnote.2 (by decide +kernel))
  · exact (htagOnly (by decide +kernel) "tags").2 (by decide +kernel)
  · exact (hnoteOnly (by decide +kernel) "note").2 (by decide +kernel)

/-- Not every nested test is left to the filters: the name in `tags[0]` is read as the attribute. -/
theorem nested_tests_not_all_filters :
    ¬ ∀ (planner : Planner) (test : Test) (next : Nat) (plan : Plan) (warnings : List Warning),
      test.target.IsNested → planner.plan (.leaf (test.leaf next)) = .ok (plan, warnings) →
        plan.keyConditions = [] := by
  intro hall
  have hplan : ((Planner.ofModel { taggings with key := [⟨"PK", "TAG#${tags}"⟩] }).plan
      (.leaf (firstTagTest.leaf 0))).toOption.map (fun split => split.1.keyExpression.text) =
        some "#PK[0] = :tags_0" := by decide +kernel
  obtain ⟨⟨plan, warnings⟩, hplan, htext⟩ := exists_ok_of_map_toOption hplan
  have hkeys := hall _ _ _ _ _ (by decide +kernel) hplan
  rw [Plan.keyExpression, hkeys] at htext
  revert htext
  decide +kernel

end SingleTable
