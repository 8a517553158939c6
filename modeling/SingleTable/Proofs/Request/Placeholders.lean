import SingleTable.Proofs.Condition.Maps
import SingleTable.Proofs.Condition.TestText
import SingleTable.Proofs.Plan.Routing
import SingleTable.Proofs.Request.Reached

/-!
# What the placeholders of a query stand for

A query splits its conditions into key conditions and filters and writes the values of both into one map.
A test in a filter shows its placeholders as they were minted, and each stands for the value that it was
minted for. A test that went to a key shows them after the name of its attribute was replaced by the name of
the key, and they should stand for the keys that the template gives. They do except in two cases
(`Query.values_of_build`): the same test is also part of a filter, whose entry is written last, or the
placeholder itself contains the token of the attribute and was renamed with it.
-/

set_option autoImplicit false

namespace SingleTable

/-! ## Values that go to a key -/

/-- A value of a test that goes to a key, with the placeholder that was minted for it and the key that the
template gives in its place. -/
structure KeyOperand (made : List (Test × Nat)) (slots : List Slot) (conjuncts : List Condition) where
  /-- The test with the number from which its placeholders count. -/
  entry : Test × Nat
  /-- The attribute of the test. -/
  name : String
  /-- The key that the test goes to. -/
  slot : Slot
  /-- The placeholder as it was minted. -/
  placeholder : String
  /-- The value that it was minted for. -/
  value : Value
  /-- What the template of the key gives for the value. -/
  key : String
  isMade : entry ∈ made
  isConjunct : .leaf (entry.1.leaf entry.2) ∈ conjuncts
  goes : (entry.1.leaf entry.2).GoesTo slots name slot
  isMinted : (placeholder, value) ∈ entry.1.bound entry.2
  resolved : slot.template.resolve (completed? conjuncts name value) = .ok key

/-- The placeholder as the key condition shows it. -/
def KeyOperand.shown {made : List (Test × Nat)} {slots : List Slot} {conjuncts : List Condition}
    (operand : KeyOperand made slots conjuncts) : String :=
  renameToken operand.placeholder (nameToken operand.name) (nameToken operand.slot.name)

/-- A test is part of a filter. -/
def Plan.Filters (plan : Plan) (entry : Test × Nat) : Prop :=
  ∃ leaf ∈ Condition.leavesOfAll plan.filterConditions, leaf.ComesFrom entry

/-- What a placeholder stands for in the request of a plan: the value that it was minted for if its test is
part of a filter, and otherwise the key in the place of this value. -/
def Plan.StandsFor (plan : Plan) (made : List (Test × Nat)) (slots : List Slot) (conjuncts : List Condition)
    (placeholder : String) (value : Value) : Prop :=
  (∃ entry ∈ made, plan.Filters entry ∧ (placeholder, value) ∈ entry.1.bound entry.2) ∨
    ∃ operand : KeyOperand made slots conjuncts, ¬ plan.Filters operand.entry ∧
      operand.placeholder = placeholder ∧ value = .string operand.key

/-- A key condition makes a test of the conjunction on the physical key of a slot: its text is that of the
test with the key for the attribute, in the operand and in the placeholders, and the template gives a key
for each value. -/
def KeyConditionOf (made : List (Test × Nat)) (slots : List Slot) (conjuncts : List Condition)
    (conjunct key : Condition) : Prop :=
  ∃ entry ∈ made, ∃ name slot rewritten, conjunct = .leaf (entry.1.leaf entry.2) ∧
    (entry.1.leaf entry.2).GoesTo slots name slot ∧ key = .leaf rewritten ∧
    rewritten.text =
      entry.1.text (renameToken entry.1.target.operand.text (nameToken name) (nameToken slot.name))
        ((entry.1.bound entry.2).map fun bound =>
          renameToken bound.1 (nameToken name) (nameToken slot.name)) ∧
    ∀ bound ∈ entry.1.bound entry.2, ∃ text,
      slot.template.resolve (completed? conjuncts name bound.2) = .ok text

/-! ## Leaves that come from tests -/

section Leaves

variable {leaf : Leaf} {entry : Test × Nat}

/-- A leaf has the placeholders of its test. -/
theorem Leaf.ComesFrom.get? (h : leaf.ComesFrom entry) {placeholder : String} {value : Value} :
    leaf.values.get? placeholder = some value ↔ (placeholder, value) ∈ entry.1.bound entry.2 := by
  have hvalues : leaf.values = (entry.1.leaf entry.2).values := by rw [h]
  rw [hvalues, get?_leaf]

/-- A leaf that is not negated is the leaf of its test. -/
theorem Leaf.ComesFrom.eq_leaf (h : leaf.ComesFrom entry) (hpositive : leaf.negated = false) :
    leaf = entry.1.leaf entry.2 := by
  have hleaf := leaf_negated entry.1 entry.2
  rw [h, hpositive, ← hleaf]

end Leaves

/-! ## The two halves of a plan -/

/-- A plan splits a conjunction of tests that a builder has made. -/
structure Plan.Splits (plan : Plan) (made : List (Test × Nat)) (slots : List Slot)
    (conjuncts : List Condition) : Prop where
  /-- The builder has kept its tests apart. -/
  apart : ∃ next, Apart made next
  /-- Every leaf comes from a test of the builder. -/
  leaves : ∀ leaf ∈ Condition.leavesOfAll conjuncts, ∃ entry ∈ made, leaf.ComesFrom entry
  /-- The conjuncts that go to no key are the filters. -/
  filters : plan.filterConditions = conjuncts.filter fun conjunct => !conjunct.isPushable slots
  /-- The others have one key condition each. -/
  keys : List.Forall₂ (Condition.RewrittenTo slots conjuncts)
    (conjuncts.filter fun conjunct => conjunct.isPushable slots) plan.keyConditions

namespace Plan.Splits

variable {plan : Plan} {made : List (Test × Nat)} {slots : List Slot} {conjuncts : List Condition}

/-- The plan of a condition whose leaves come from tests that were kept apart splits these tests. -/
theorem of_plan {planner : Planner} {condition : Condition} {warnings : List Warning} {next : Nat}
    (hapart : Apart made next) (hleaves : ∀ leaf ∈ condition.leaves, ∃ entry ∈ made, leaf.ComesFrom entry)
    (hgroup : condition.conjunction? = some conjuncts)
    (hplan : planner.plan condition = .ok (plan, warnings)) : plan.Splits made planner.slots conjuncts := by
  rw [Planner.plan_of_conjunction _ hgroup] at hplan
  obtain ⟨hfilters, hkeys⟩ := Planner.planAll_ok hplan
  refine ⟨⟨next, hapart⟩, fun leaf hleaf => ?_, hfilters, hkeys⟩
  obtain ⟨conjunct, hconjunct, hmem⟩ := Condition.mem_leavesOfAll_iff.1 hleaf
  exact hleaves leaf (mem_leaves_of_conjunct hgroup hconjunct hmem)

/-- A leaf of the conjunction that is not negated is the leaf of a test. -/
theorem entry_of_leaf (h : plan.Splits made slots conjuncts) {leaf : Leaf} (hleaf : .leaf leaf ∈ conjuncts)
    (hpositive : leaf.negated = false) : ∃ entry ∈ made, leaf = entry.1.leaf entry.2 := by
  obtain ⟨entry, hentry, hcomes⟩ :=
    h.leaves leaf (Condition.mem_leavesOfAll_iff.2 ⟨_, hleaf, List.mem_singleton_self leaf⟩)
  exact ⟨entry, hentry, hcomes.eq_leaf hpositive⟩

/-- The leaves of the filters come from tests of the builder. -/
theorem comesFrom_of_filter (h : plan.Splits made slots conjuncts) {leaf : Leaf}
    (hleaf : leaf ∈ Condition.leavesOfAll plan.filterConditions) :
    ∃ entry ∈ made, leaf.ComesFrom entry := by
  rw [h.filters] at hleaf
  obtain ⟨condition, hcondition, hmem⟩ := Condition.mem_leavesOfAll_iff.1 hleaf
  exact h.leaves leaf (Condition.mem_leavesOfAll_iff.2 ⟨condition, List.mem_of_mem_filter hcondition, hmem⟩)

/-- A placeholder stands for one key only. -/
theorem key_unique (h : plan.Splits made slots conjuncts) {a b : KeyOperand made slots conjuncts}
    (heq : a.placeholder = b.placeholder) : a.key = b.key := by
  obtain ⟨next, hapart⟩ := h.apart
  obtain ⟨hentry, hvalue⟩ := hapart.unique a.isMade b.isMade a.isMinted (heq ▸ b.isMinted)
  obtain ⟨hname, hslot⟩ := a.goes.unique (hentry ▸ b.goes)
  have hresolved := b.resolved
  rw [hname, hslot, ← hvalue, a.resolved] at hresolved
  exact Except.ok.inj hresolved

/-- The values of the filters are those that the placeholders of their tests were minted for. -/
theorem get?_filterExpression_iff (h : plan.Splits made slots conjuncts) {placeholder : String}
    {value : Value} :
    plan.filterExpression.values.get? placeholder = some value ↔
      ∃ entry ∈ made, plan.Filters entry ∧ (placeholder, value) ∈ entry.1.bound entry.2 := by
  obtain ⟨next, hapart⟩ := h.apart
  have hagree : ∀ a ∈ Condition.leavesOfAll plan.filterConditions,
      ∀ b ∈ Condition.leavesOfAll plan.filterConditions, ∀ v w,
        a.values.get? placeholder = some v → b.values.get? placeholder = some w → v = w := by
    intro a ha b hb v w hv hw
    obtain ⟨entry, hentry, hcomes⟩ := h.comesFrom_of_filter ha
    obtain ⟨entry', hentry', hcomes'⟩ := h.comesFrom_of_filter hb
    exact (hapart.unique hentry hentry' (hcomes.get?.1 hv) (hcomes'.get?.1 hw)).2
  refine (Condition.get?_valuesOf_iff hagree).trans ⟨?_, ?_⟩
  · rintro ⟨leaf, hleaf, hvalue⟩
    obtain ⟨entry, hentry, hcomes⟩ := h.comesFrom_of_filter hleaf
    exact ⟨entry, hentry, ⟨leaf, hleaf, hcomes⟩, hcomes.get?.1 hvalue⟩
  · rintro ⟨entry, -, ⟨leaf, hleaf, hcomes⟩, hminted⟩
    exact ⟨leaf, hleaf, hcomes.get?.2 hminted⟩

/-- A value of a key condition is the key for an operand. -/
theorem exists_operand (h : plan.Splits made slots conjuncts) {rewritten : Leaf}
    (hmem : .leaf rewritten ∈ plan.keyConditions) {placeholder : String} {value : Value}
    (hvalue : rewritten.values.get? placeholder = some value) :
    ∃ operand : KeyOperand made slots conjuncts,
      operand.placeholder = placeholder ∧ value = .string operand.key := by
  obtain ⟨conjunct, hconjunct, leaf, name, slot, rewritten, rfl, hgoes, heq, hrewritten⟩ :=
    exists_left_of_mem h.keys hmem
  cases heq
  have hleaf := List.mem_of_mem_filter hconjunct
  obtain ⟨entry, hentry, rfl⟩ := h.entry_of_leaf hleaf hgoes.positive
  -- The placeholder is one of the leaf, since rewriting keeps the placeholders.
  have hin : placeholder ∈ rewritten.values.names := Dict.mem_names_iff.2 ⟨value, hvalue⟩
  rw [hrewritten.placeholders] at hin
  obtain ⟨original, hget⟩ := Dict.mem_names_iff.1 hin
  obtain ⟨key, hkey, hbound⟩ := hrewritten.values _ _ hget
  refine ⟨⟨entry, name, slot, _, original, key, hentry, hleaf, hgoes, get?_leaf.1 hget, hkey⟩, rfl, ?_⟩
  exact Option.some.inj (hvalue.symm.trans hbound)

/-- Every operand has its key in a key condition. -/
theorem exists_rewritten (h : plan.Splits made slots conjuncts) (operand : KeyOperand made slots conjuncts) :
    ∃ rewritten, .leaf rewritten ∈ plan.keyConditions ∧
      rewritten.values.get? operand.placeholder = some (.string operand.key) := by
  have hpushable : (Condition.leaf (operand.entry.1.leaf operand.entry.2)).isPushable slots = true :=
    (isPushable_leaf_iff slots _).2 ⟨_, _, operand.goes⟩
  obtain ⟨key, hkey, leaf, name, slot, rewritten, heq, hgoes, rfl, hrewritten⟩ :=
    exists_right_of_mem h.keys (List.mem_filter.2 ⟨operand.isConjunct, hpushable⟩)
  cases heq
  obtain ⟨hname, hslot⟩ := operand.goes.unique hgoes
  obtain ⟨text, htext, hbound⟩ := hrewritten.values _ _ (get?_leaf.2 operand.isMinted)
  rw [hname, hslot, operand.resolved] at htext
  cases htext
  exact ⟨rewritten, hkey, hbound⟩

/-- Key conditions are leaves. -/
theorem mem_keys_iff (h : plan.Splits made slots conjuncts) {leaf : Leaf} :
    leaf ∈ Condition.leavesOfAll plan.keyConditions ↔ .leaf leaf ∈ plan.keyConditions := by
  rw [Condition.mem_leavesOfAll_iff]
  constructor
  · rintro ⟨condition, hcondition, hleaf⟩
    obtain ⟨_, _, _, _, _, rewritten, _, _, rfl, _⟩ := exists_left_of_mem h.keys hcondition
    rwa [List.mem_singleton.1 hleaf]
  · intro hmem
    exact ⟨_, hmem, List.mem_singleton_self leaf⟩

/-- The values of the key conditions are the keys for the operands. -/
theorem get?_keyExpression_iff (h : plan.Splits made slots conjuncts) {placeholder : String}
    {value : Value} :
    plan.keyExpression.values.get? placeholder = some value ↔
      ∃ operand : KeyOperand made slots conjuncts,
        operand.placeholder = placeholder ∧ value = .string operand.key := by
  have hagree : ∀ a ∈ Condition.leavesOfAll plan.keyConditions,
      ∀ b ∈ Condition.leavesOfAll plan.keyConditions, ∀ v w,
        a.values.get? placeholder = some v → b.values.get? placeholder = some w → v = w := by
    intro a ha b hb v w hv hw
    obtain ⟨operand, hplaceholder, rfl⟩ := h.exists_operand (h.mem_keys_iff.1 ha) hv
    obtain ⟨operand', hplaceholder', rfl⟩ := h.exists_operand (h.mem_keys_iff.1 hb) hw
    rw [h.key_unique (hplaceholder.trans hplaceholder'.symm)]
  rw [keyExpression, values_compileKeys, Condition.get?_valuesOf_iff hagree]
  constructor
  · rintro ⟨leaf, hleaf, hvalue⟩
    exact h.exists_operand (h.mem_keys_iff.1 hleaf) hvalue
  · rintro ⟨operand, rfl, rfl⟩
    obtain ⟨rewritten, hmem, hvalue⟩ := h.exists_rewritten operand
    exact ⟨rewritten, h.mem_keys_iff.2 hmem, hvalue⟩

/-- The values of both halves, the filters written last, are what the placeholders stand for. -/
theorem get?_values_iff (h : plan.Splits made slots conjuncts) {placeholder : String} {value : Value} :
    (plan.keyExpression.values.extend plan.filterExpression.values).get? placeholder = some value ↔
      plan.StandsFor made slots conjuncts placeholder value := by
  obtain ⟨next, hapart⟩ := h.apart
  rw [Dict.get?_extend, Option.or_eq_some_iff, h.get?_filterExpression_iff, h.get?_keyExpression_iff]
  -- The filters count as they are; a key counts where no filter gives the placeholder a value.
  refine or_congr_right ⟨?_, ?_⟩
  · rintro ⟨hnone, operand, rfl, rfl⟩
    refine ⟨operand, fun hfilters => ?_, rfl, rfl⟩
    have hsome := h.get?_filterExpression_iff.2 ⟨_, operand.isMade, hfilters, operand.isMinted⟩
    rw [hnone] at hsome
    cases hsome
  · rintro ⟨operand, hnot, rfl, rfl⟩
    refine ⟨?_, operand, rfl, rfl⟩
    rw [Option.eq_none_iff_forall_ne_some]
    intro found hfound
    obtain ⟨entry, hentry, hfilters, hminted⟩ := h.get?_filterExpression_iff.1 hfound
    obtain ⟨rfl, -⟩ := hapart.unique hentry operand.isMade hminted operand.isMinted
    exact hnot hfilters

/-- The minted placeholder of an operand stands for its key exactly if the test is part of no filter or
the template gives the value as it is. -/
theorem standsFor_placeholder_iff (h : plan.Splits made slots conjuncts)
    (operand : KeyOperand made slots conjuncts) :
    plan.StandsFor made slots conjuncts operand.placeholder (.string operand.key) ↔
      (plan.Filters operand.entry → operand.value = .string operand.key) := by
  obtain ⟨next, hapart⟩ := h.apart
  constructor
  -- The placeholder was minted by one test only, so both ways it stands for something are about this one.
  · rintro (⟨entry, hentry, -, hminted⟩ | ⟨other, hnot, heq, -⟩) hfilters
    · exact (hapart.unique operand.isMade hentry operand.isMinted hminted).2
    · obtain ⟨hsame, -⟩ := hapart.unique other.isMade operand.isMade other.isMinted (heq ▸ operand.isMinted)
      exact absurd (hsame ▸ hfilters) hnot
  · intro hvalue
    by_cases hfilters : plan.Filters operand.entry
    · exact Or.inl ⟨_, operand.isMade, hfilters, hvalue hfilters ▸ operand.isMinted⟩
    · exact Or.inr ⟨operand, hfilters, rfl, rfl⟩

/-- Each key condition makes the test of its conjunct on the key. -/
theorem keyConditions (h : plan.Splits made slots conjuncts) :
    List.Forall₂ (KeyConditionOf made slots conjuncts)
      (conjuncts.filter fun conjunct => conjunct.isPushable slots) plan.keyConditions := by
  refine (forall₂_filter_mem h.keys).imp ?_
  rintro _ _ ⟨hmem, leaf, name, slot, rewritten, rfl, hgoes, rfl, hrewritten⟩
  obtain ⟨entry, hentry, rfl⟩ := h.entry_of_leaf hmem hgoes.positive
  refine ⟨entry, hentry, name, slot, rewritten, rfl, hgoes, rfl, ?_, ?_⟩
  · have hkind := hgoes.kind
    rw [leaf_kind] at hkind
    rw [hrewritten.text, text_leaf (isVoid_eq_false hkind), renameToken_text, List.map_map]
    rfl
  · rintro ⟨placeholder, value⟩ hbound
    obtain ⟨key, hkey, -⟩ := hrewritten.values _ _ (get?_leaf.2 hbound)
    exact ⟨key, hkey⟩

end Plan.Splits

/-! ## The request of a query -/

/-- Only a conjunction has key conditions. -/
theorem conjunction?_of_keyConditions {planner : Planner} {condition : Condition} {plan : Plan}
    {warnings : List Warning} (h : planner.plan condition = .ok (plan, warnings))
    (hkeys : plan.keyConditions.isEmpty = false) :
    ∃ conjuncts, condition.conjunction? = some conjuncts := by
  cases condition with
  | leaf leaf => exact ⟨_, rfl⟩
  | group joiner children negated =>
    cases joiner with
    | or =>
      cases h
      cases hkeys
    | and =>
      cases negated with
      | false => exact ⟨_, rfl⟩
      | true =>
        cases h
        cases hkeys

namespace Query

variable {query : Query} {request : QueryRequest} {warnings : List Warning}

/-- What a query sends is made of its plan. -/
theorem plan_of_build (h : query.build = .ok (request, warnings)) :
    ∃ planner plan, query.planner = .ok planner ∧
      planner.plan query.chain.combined = .ok (plan, warnings) ∧ plan.keyConditions.isEmpty = false ∧
      request.keyConditionExpression = plan.keyExpression.text? ∧
      request.filterExpression = plan.filterExpression.text? ∧
      request.values = plan.keyExpression.values.extend plan.filterExpression.values := by
  rw [build, bind_eq_ok_iff] at h
  obtain ⟨planner, hplanner, h⟩ := h
  obtain ⟨⟨plan, warned⟩, hplan, h⟩ := bind_eq_ok_iff.1 h
  dsimp only at h
  split at h
  · cases h
  · rename_i hkeys
    cases h
    refine ⟨planner, plan, hplanner, hplan, Bool.eq_false_iff.2 hkeys, rfl, rfl, ?_⟩
    -- A projection has no values, and the map starts empty.
    exact congrArg (fun values => values.extend plan.filterExpression.values) (Dict.empty_extend _)

/-- The plan of a reached query splits tests of its operator builder. -/
theorem Owned.splits {made : List (Test × Nat)} (h : Owned made query) {planner : Planner} {plan : Plan}
    {conjuncts : List Condition} (hgroup : query.chain.combined.conjunction? = some conjuncts)
    (hplan : planner.plan query.chain.combined = .ok (plan, warnings)) :
    plan.Splits made planner.slots conjuncts := by
  refine .of_plan h.apart (fun leaf hleaf => ?_) hgroup hplan
  rw [Chain.leaves_combined] at hleaf
  exact h.leaves leaf hleaf

/-- **What the placeholders of a query stand for.** Take any query whose conditions are made by its operator
builder, with the same tests used as often as one likes, and let the build succeed. Each filter leaf is that
of a test, whose placeholders stand for the values that they were minted for. Each key condition shows a test
with its placeholders renamed from the attribute to the key, and the template gives a key for each value.
What it shows stands for this key exactly in one of two cases: the placeholder has kept its spelling, and if
the test is part of a filter too, the template gives the value as it is; or the placeholder was renamed into
one that stands for the very key by chance. A placeholder keeps its spelling exactly if the token of the
attribute does not occur in it or the key has the name of the attribute. -/
theorem values_of_build {made : List (Test × Nat)} (hreached : Reached made query)
    (hbuild : query.build = .ok (request, warnings)) :
    ∃ planner plan conjuncts, query.planner = .ok planner ∧
      query.chain.combined.conjunction? = some conjuncts ∧
      planner.plan query.chain.combined = .ok (plan, warnings) ∧
      request.keyConditionExpression = plan.keyExpression.text? ∧
      request.filterExpression = plan.filterExpression.text? ∧
      List.Forall₂ (KeyConditionOf made planner.slots conjuncts)
        (conjuncts.filter fun conjunct => conjunct.isPushable planner.slots) plan.keyConditions ∧
      (∀ leaf ∈ Condition.leavesOfAll plan.filterConditions, ∃ entry ∈ made, leaf.ComesFrom entry ∧
        ∀ placeholder value, (placeholder, value) ∈ entry.1.bound entry.2 →
          request.values.get? placeholder = some value) ∧
      (∀ operand : KeyOperand made planner.slots conjuncts,
        request.values.get? operand.shown = some (.string operand.key) ↔
          operand.shown = operand.placeholder ∧
              (plan.Filters operand.entry → operand.value = .string operand.key) ∨
            operand.shown ≠ operand.placeholder ∧
              plan.StandsFor made planner.slots conjuncts operand.shown (.string operand.key)) ∧
      ∀ operand : KeyOperand made planner.slots conjuncts, operand.shown = operand.placeholder ↔
        (nameToken operand.name ∈ nameTokens operand.placeholder → operand.slot.name = operand.name) := by
  obtain ⟨planner, plan, hplanner, hplan, hkeys, hkeyText, hfilterText, hvalues⟩ := plan_of_build hbuild
  obtain ⟨conjuncts, hgroup⟩ := conjunction?_of_keyConditions hplan hkeys
  have hsplits := hreached.owned.splits hgroup hplan
  refine ⟨planner, plan, conjuncts, hplanner, hgroup, hplan, hkeyText, hfilterText, hsplits.keyConditions,
    fun leaf hleaf => ?_, fun operand => ?_, fun operand => ?_⟩
  · obtain ⟨entry, hentry, hcomes⟩ := hsplits.comesFrom_of_filter hleaf
    refine ⟨entry, hentry, hcomes, fun placeholder value hbound => ?_⟩
    rw [hvalues, hsplits.get?_values_iff]
    exact Or.inl ⟨entry, hentry, ⟨leaf, hleaf, hcomes⟩, hbound⟩
  -- A renamed placeholder was minted by nobody as it stands now, so it takes part by chance only.
  · rw [hvalues, hsplits.get?_values_iff]
    by_cases hkept : operand.shown = operand.placeholder
    · rw [hkept, hsplits.standsFor_placeholder_iff operand]
      simp
    · simp [hkept]
  · rw [KeyOperand.shown, renameToken_eq_self_iff]
    apply imp_congr_right
    intro _
    constructor
    · intro htoken
      exact (String.append_right_inj _).1 htoken.symm
    · intro hname
      rw [hname]

/-- A nested attribute whose token is part of the placeholder: the key condition shows a placeholder that
nothing is bound to. -/
example :
    ((Query.condition { model := ⟨"User", "app", [⟨"PK", "USER#${p}"⟩], [], []⟩ }
      (Test.compare .eq ⟨"#p y", some "p"⟩ (.string "alice")).build).build.toOption.map fun result =>
        (result.1.keyConditionExpression, result.1.values.names)) =
      some (some "#PK = :#PK y_0", [":#p y_0"]) := by
  decide +kernel

/-! ### A test that is used twice -/

/-- Accounts, stored under their users. -/
def accounts : Model where
  name := "User"
  table := "app"
  key := [⟨"PK", "USER#${user}"⟩]

/-- The test for the account of a user. -/
def isAlice : Test := .compare .eq ⟨"user", none⟩ (.string "alice")

/-- A query for the account whose condition is used a second time, negated. -/
def repeated : Query :=
  (Query.condition { model := accounts } isAlice.build).withCondition
    (Condition.leaf (isAlice.leaf 0)).negate

/-- The request of this query. -/
def repeatedRequest : QueryRequest where
  tableName := "app"
  keyConditionExpression := some "#PK = :user_0"
  filterExpression := some "NOT (#user = :user_0)"
  names := .ofList [("#PK", "PK"), ("#user", "user")]
  values := .singleton ":user_0" (.string "alice")

/-- The value of the test as the key condition shows it. -/
def repeatedOperand : KeyOperand [(isAlice, 0)] (Planner.ofModel accounts).slots
    [.leaf (isAlice.leaf 0), .leaf { isAlice.leaf 0 with negated := true }] where
  entry := (isAlice, 0)
  name := "user"
  slot := .ofDefinition ⟨"PK", "USER#${user}"⟩
  placeholder := ":user_0"
  value := .string "alice"
  key := "USER#alice"
  isMade := List.mem_singleton_self _
  isConjunct := List.mem_cons_self
  goes := ⟨rfl, by decide, by decide +kernel, by decide +kernel⟩
  isMinted := List.mem_singleton_self _
  resolved := eq_ok_of_toOption (by decide +kernel)

theorem reached_repeated : Reached [(isAlice, 0)] repeated := by
  have hmade : Condition.Built (IsMade ([] ++ [(isAlice, 0)])) (.leaf (isAlice.leaf 0)) :=
    .leaf ⟨_, List.mem_singleton_self _, rfl⟩
  have hcondition : Reached ([] ++ [(isAlice, 0)]) (Query.condition { model := accounts } isAlice.build) :=
    (Reached.start accounts).step (.condition (Minted.start.operator isAlice) hmade)
  exact hcondition.step (.withCondition hmade.negate)

theorem build_repeated : repeated.build = .ok (repeatedRequest, []) :=
  eq_ok_of_toOption (by decide +kernel)

/-- The placeholder of the repeated test has kept its spelling, and it stands for the key only if the filter
does not overwrite it. -/
theorem values_of_build_repeated :
    ∃ plan : Plan, (Planner.ofModel accounts).plan repeated.chain.combined = .ok (plan, []) ∧
      repeatedOperand.shown = repeatedOperand.placeholder ∧
      (repeatedRequest.values.get? repeatedOperand.shown = some (.string repeatedOperand.key) ↔
        (plan.Filters repeatedOperand.entry → repeatedOperand.value = .string repeatedOperand.key)) := by
  obtain ⟨planner, plan, conjuncts, hplanner, hgroup, hplan, -, -, -, -, hkey, hkept⟩ :=
    values_of_build reached_repeated build_repeated
  cases hplanner
  cases hgroup
  have hspelling := (hkept repeatedOperand).2 (by decide +kernel)
  refine ⟨plan, hplan, hspelling, (hkey repeatedOperand).trans ?_⟩
  simp [hspelling]

/-- Not every placeholder of a key condition stands for the key in its place: where a test is repeated in a
filter, the placeholder stands for the value before the template was filled in. -/
theorem key_placeholders_not_all_bound :
    ¬ ∀ (made : List (Test × Nat)) (query : Query) (request : QueryRequest) (warnings : List Warning)
      (planner : Planner) (conjuncts : List Condition), Reached made query →
        query.build = .ok (request, warnings) → query.planner = .ok planner →
          query.chain.combined.conjunction? = some conjuncts →
            ∀ operand : KeyOperand made planner.slots conjuncts,
              request.values.get? operand.shown = some (.string operand.key) := by
  intro hall
  have hbound := hall _ _ _ _ _ _ reached_repeated build_repeated rfl rfl repeatedOperand
  revert hbound
  decide +kernel

end Query

end SingleTable
