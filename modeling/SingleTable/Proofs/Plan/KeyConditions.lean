import SingleTable.Proofs.Plan.KeyAgreement
import SingleTable.Proofs.Plan.Paths
import SingleTable.Proofs.Request.Placeholders

/-!
# The keys that a plan addresses

A conjunct on a top-level attribute goes to the first key whose template refers to the attribute, whatever the
other conjuncts are. So each key condition addresses the key of its conjunct, and two of them address the same
key exactly if their conjuncts go to the same slot (`Plan.AddressesKeys`): two tests on one attribute do, and
so do the equalities that complete one template together. These equalities at least look for the same text, if
some item satisfies all equalities of the conjunction.
-/

set_option autoImplicit false

namespace SingleTable

/-- A conjunct goes to a slot if it is a leaf that does. -/
def Condition.GoesTo (slots : List Slot) (conjunct : Condition) (slot : Slot) : Prop :=
  ∃ leaf name, conjunct = .leaf leaf ∧ leaf.GoesTo slots name slot

/-- A key condition addresses a physical key: it makes a test on the bare key and names nothing else. -/
def Condition.Addresses (key : Condition) (name : String) : Prop :=
  ∃ (leaf : Leaf) (test : Test) (placeholders : List String), key = .leaf leaf ∧ leaf.kind = test.kind ∧
    leaf.text = test.text (nameToken name) placeholders ∧ leaf.names = .singleton (nameToken name) name

/-- The keys that the key conditions of a plan address. -/
structure Plan.AddressesKeys (plan : Plan) (slots : List Slot) (conjuncts : List Condition) : Prop where
  /-- Each conjunct that goes to a slot has a key condition, which addresses the key of the slot. -/
  keys : List.Forall₂ (fun conjunct key => ∃ slot, conjunct.GoesTo slots slot ∧ key.Addresses slot.name)
    (conjuncts.filter fun conjunct => conjunct.isPushable slots) plan.keyConditions
  /-- No key is addressed twice exactly if no two conjuncts go to the same slot. -/
  different : (slots.map Slot.name).Nodup →
    (plan.keyConditions.Pairwise (fun a b => ∀ name, a.Addresses name → ¬ b.Addresses name) ↔
      (conjuncts.filter fun conjunct => conjunct.isPushable slots).Pairwise fun a b =>
        ∀ slot, a.GoesTo slots slot → ¬ b.GoesTo slots slot)
  /-- Equalities that address one key look for the same text if they can be satisfied together. -/
  agree : (slots.map Slot.name).Nodup → ∀ attributes, SatisfiesEqualities conjuncts attributes →
    ∀ (a b : Leaf) (name : String), .leaf a ∈ plan.keyConditions → .leaf b ∈ plan.keyConditions →
      a.kind = .compare .eq → b.kind = .compare .eq → (Condition.leaf a).Addresses name →
        (Condition.leaf b).Addresses name →
          ∃ key, a.values.values = [.string key] ∧ b.values.values = [.string key]

/-! ## Related lists -/

/-- Relations that correspond hold pairwise of related lists together. -/
theorem pairwise_iff_of_forall₂ {α β : Type} {R : α → β → Prop} {P : α → α → Prop} {Q : β → β → Prop}
    {left : List α} {right : List β} (h : List.Forall₂ R left right)
    (hR : ∀ a b c d, R a c → R b d → (P a b ↔ Q c d)) : right.Pairwise Q ↔ left.Pairwise P := by
  induction h with
  | nil => exact ⟨fun _ => .nil, fun _ => .nil⟩
  | @cons a c rest rest' hhead htail ih =>
    rw [List.pairwise_cons, List.pairwise_cons, ih]
    -- Each later member is related to one on the other side, so the heads see corresponding members.
    apply and_congr_left
    intro _
    constructor
    · intro hall b hb
      obtain ⟨d, hd, hbd⟩ := exists_right_of_mem htail hb
      exact (hR a b c d hhead hbd).2 (hall d hd)
    · intro hall d hd
      obtain ⟨b, hb, hbd⟩ := exists_left_of_mem htail hd
      exact (hR a b c d hhead hbd).1 (hall b hb)

section Keys

variable {slots : List Slot} {conjunct key : Condition} {slot other : Slot}

theorem Condition.GoesTo.unique (h : conjunct.GoesTo slots slot) (h' : conjunct.GoesTo slots other) :
    slot = other := by
  obtain ⟨leaf, name, rfl, hgoes⟩ := h
  obtain ⟨_, _, heq, hgoes'⟩ := h'
  cases heq
  exact (hgoes'.unique hgoes).2

theorem Condition.GoesTo.mem (h : conjunct.GoesTo slots slot) : slot ∈ slots := by
  obtain ⟨leaf, name, -, hgoes⟩ := h
  exact List.mem_of_find?_eq_some hgoes.first

/-- A key condition addresses one key only. -/
theorem Condition.Addresses.unique {a b : String} (h : key.Addresses a) (h' : key.Addresses b) : a = b := by
  obtain ⟨leaf, -, -, rfl, -, -, hnames⟩ := h
  obtain ⟨leaf, -, -, heq, -, -, hnames'⟩ := h'
  cases heq
  have hget := congrArg (fun names : Dict String => names.values) (hnames.symm.trans hnames')
  exact (List.cons.inj hget).1

/-- A test on a top-level attribute is made on the bare key. -/
theorem Test.MadeOn.addresses {test : Test} {next : Nat} {name : String} {made : Leaf}
    (h : test.MadeOn slots next name slot made) (hpath : test.target.path = none) :
    (Condition.leaf made).Addresses slot.name := by
  have htext := h.text
  rw [h.bare.2 (Handle.not_isNested_of_no_path hpath)] at htext
  exact ⟨made, test, _, rfl, h.kind, htext, h.names⟩

/-- Slots with different names are told apart by their names. -/
theorem eq_of_slot_name (hnodup : (slots.map Slot.name).Nodup) (hslot : slot ∈ slots) (hother : other ∈ slots)
    (h : slot.name = other.name) : slot = other :=
  List.inj_on_of_nodup_map hnodup hslot hother h

end Keys

/-! ## Plans -/

section Plans

variable {planner : Planner} {condition : Condition} {conjuncts : List Condition} {plan : Plan}
  {warnings : List Warning}

/-- A leaf of a conjunction that is not negated was made by a test on a top-level attribute. -/
theorem isTopLevel_of_leavesFrom (htop : condition.LeavesFrom Leaf.IsTopLevel)
    (hgroup : condition.conjunction? = some conjuncts) (leaf : Leaf) (hleaf : .leaf leaf ∈ conjuncts)
    (hpositive : leaf.negated = false) : leaf.IsTopLevel := by
  obtain ⟨origin, ⟨test, next, hpath, rfl⟩, heq⟩ :=
    htop leaf (mem_leaves_of_conjunct hgroup hleaf (List.mem_singleton_self leaf))
  refine ⟨test, next, hpath, ?_⟩
  rw [heq, hpositive, ← leaf_negated test next]

/-- Each key condition addresses the slot that its conjunct goes to. -/
theorem addresses_of_plan (htop : condition.LeavesFrom Leaf.IsTopLevel)
    (hgroup : condition.conjunction? = some conjuncts)
    (hplan : planner.plan condition = .ok (plan, warnings)) :
    List.Forall₂ (fun conjunct key => ∃ slot, conjunct.GoesTo planner.slots slot ∧ key.Addresses slot.name)
      (conjuncts.filter fun conjunct => conjunct.isPushable planner.slots) plan.keyConditions := by
  refine (Planner.rewrittenTo_of_plan hgroup hplan).imp ?_
  rintro _ _ ⟨hmem, leaf, name, slot, rewritten, rfl, hgoes, rfl, hrewritten⟩
  obtain ⟨test, next, hpath, rfl⟩ := isTopLevel_of_leavesFrom htop hgroup leaf hmem hgoes.positive
  have hmade := hrewritten.madeOn (goesTo_leaf_iff.1 hgoes)
  exact ⟨slot, ⟨_, name, rfl, hgoes⟩, hmade.addresses hpath⟩

/-- An equality on a key looks for the key that every item has which satisfies the equalities of the
conjunction. -/
theorem key_of_equality (htop : condition.LeavesFrom Leaf.IsTopLevel)
    (hgroup : condition.conjunction? = some conjuncts)
    (hplan : planner.plan condition = .ok (plan, warnings)) {attributes : Dict Value}
    (hattributes : SatisfiesEqualities conjuncts attributes) {pushed : Leaf}
    (hpushed : .leaf pushed ∈ plan.keyConditions) (hkind : pushed.kind = .compare .eq) :
    ∃ slot key, slot ∈ planner.slots ∧ (Condition.leaf pushed).Addresses slot.name ∧
      slot.template.resolve attributes.get? = .ok key ∧ pushed.values.values = [.string key] := by
  have htop := isTopLevel_of_leavesFrom htop hgroup
  obtain ⟨leaf, name, slot, hmem, hgoes, hrewritten⟩ :=
    Planner.exists_leaf_of_keyCondition hgroup hplan hpushed
  obtain ⟨value, next, rfl⟩ := eq_equality_of_leaf (htop leaf hmem hgoes.positive)
    (hrewritten.kind.symm.trans hkind) hgoes.tested
  have hvalue : ((Test.compare .eq ⟨name, none⟩ value).leaf next).values.get?
      (valuePlaceholder name "" next) = some value := by
    rw [values_equality, Dict.get?_singleton, if_pos rfl]
  obtain ⟨key, hkey, hbound⟩ := hrewritten.values _ _ hvalue
  have hmade := hrewritten.madeOn (goesTo_leaf_iff.1 hgoes)
  refine ⟨slot, key, List.mem_of_find?_eq_some hgoes.first, hmade.addresses rfl, ?_, ?_⟩
  · exact resolve_attributes htop hattributes (hattributes name value next hmem) hkey
  · rw [eq_singleton hrewritten.placeholders hbound]
    rfl

/-- The key conditions of a plan of tests on top-level attributes address the keys of their conjuncts. -/
theorem addressesKeys_of_plan (htop : condition.LeavesFrom Leaf.IsTopLevel)
    (hplan : planner.plan condition = .ok (plan, warnings)) :
    plan.AddressesKeys planner.slots (condition.conjunction?.getD []) := by
  cases hgroup : condition.conjunction? with
  -- A condition without conjuncts has no key conditions.
  | none =>
    rw [Planner.plan_of_no_conjunction _ hgroup] at hplan
    cases hplan
    refine ⟨.nil, fun _ => ⟨fun _ => .nil, fun _ => .nil⟩, ?_⟩
    intro _ _ _ a b name ha
    cases ha
  | some conjuncts =>
    have hkeys := addresses_of_plan htop hgroup hplan
    refine ⟨hkeys, fun hnodup => pairwise_iff_of_forall₂ hkeys ?_, ?_⟩
    · rintro a b c d ⟨slot, hslot, haddress⟩ ⟨other, hother, haddress'⟩
      -- A slot has one name, and a name belongs to one slot.
      constructor
      · intro hne name hname hname'
        have hsame : slot.name = other.name := (haddress.unique hname).trans (hname'.unique haddress')
        have heq := eq_of_slot_name hnodup hslot.mem hother.mem hsame
        exact hne slot hslot (heq ▸ hother)
      · intro hne found hfound hfound'
        have heq : slot = other := (hslot.unique hfound).trans (hfound'.unique hother)
        exact hne slot.name haddress (heq ▸ haddress')
    · intro hnodup attributes hattributes a b name ha hb hkind hkind' haddress haddress'
      obtain ⟨slot, key, hslot, hown, hkey, hvalues⟩ :=
        key_of_equality htop hgroup hplan hattributes ha hkind
      obtain ⟨other, key', hother, hown', hkey', hvalues'⟩ :=
        key_of_equality htop hgroup hplan hattributes hb hkind'
      have hsame : slot.name = other.name := (hown.unique haddress).trans (haddress'.unique hown')
      obtain rfl := eq_of_slot_name hnodup hslot hother hsame
      -- Both equalities look for the key that the template gives for the attributes.
      rw [hkey] at hkey'
      cases hkey'
      exact ⟨key, hvalues, hvalues'⟩

/-- **Which keys are addressed.** The key conditions of a plan of tests on top-level attributes address the
keys that their conjuncts go to, so they address different keys exactly if no two conjuncts go to the same
slot; equalities that address the same key look for the same text. The same holds for the key conditions that
a query sends. -/
theorem keys_of_plan :
    (∀ (planner : Planner) (condition : Condition) (plan : Plan) (warnings : List Warning),
      condition.LeavesFrom Leaf.IsTopLevel → planner.plan condition = .ok (plan, warnings) →
        plan.AddressesKeys planner.slots (condition.conjunction?.getD [])) ∧
    ∀ (query : Query) (request : QueryRequest) (warnings : List Warning),
      (∀ condition ∈ query.chain.conditions, condition.LeavesFrom Leaf.IsTopLevel) →
        query.build = .ok (request, warnings) →
          ∃ planner plan, query.planner = .ok planner ∧
            planner.plan query.chain.combined = .ok (plan, warnings) ∧
            request.keyConditionExpression = plan.keyExpression.text? ∧
            plan.AddressesKeys planner.slots (query.chain.combined.conjunction?.getD []) := by
  constructor
  · intro planner condition plan warnings htop hplan
    exact addressesKeys_of_plan htop hplan
  · intro query request warnings htop hbuild
    obtain ⟨planner, plan, hplanner, hplan, -, htext, -, -⟩ := Query.plan_of_build hbuild
    refine ⟨planner, plan, hplanner, hplan, htext, addressesKeys_of_plan ?_ hplan⟩
    intro leaf hleaf
    rw [Chain.leaves_combined] at hleaf
    obtain ⟨condition, hcondition, hmem⟩ := Condition.mem_leavesOfAll_iff.1 hleaf
    exact htop condition hcondition leaf hmem

end Plans

/-! ### Readings of a meter -/

/-- Readings of the meters of houses, in order of time. -/
def readings : Model where
  name := "Reading"
  table := "app"
  key := [⟨"PK", "${house}#${meter}"⟩, ⟨"SK", "AT#${time}"⟩]

/-- The readings of one meter between two times. -/
def readingTests : List Condition :=
  [.leaf ((Test.compare .eq ⟨"house", none⟩ (.string "12")).leaf 0),
    .leaf ((Test.compare .eq ⟨"meter", none⟩ (.string "gas")).leaf 1),
    .leaf ((Test.compare .gt ⟨"time", none⟩ (.string "2024")).leaf 2),
    .leaf ((Test.compare .lt ⟨"time", none⟩ (.string "2025")).leaf 3)]

/-- A query for these readings. -/
def readingQuery : Query := Query.withCondition { model := readings } (.all readingTests)

theorem readingTests_topLevel : (Condition.all readingTests).LeavesFrom Leaf.IsTopLevel := by
  apply Condition.Built.leavesFrom
  refine .all fun conjunct hconjunct => ?_
  simp only [readingTests, List.mem_cons, List.not_mem_nil, or_false] at hconjunct
  obtain rfl | rfl | rfl | rfl := hconjunct
  · exact .leaf ⟨_, 0, rfl, rfl⟩
  · exact .leaf ⟨_, 1, rfl, rfl⟩
  · exact .leaf ⟨_, 2, rfl, rfl⟩
  · exact .leaf ⟨_, 3, rfl, rfl⟩

/-- Each of the tests has a condition on its key, also where two of them go to the same one. -/
theorem keys_of_readings :
    (∃ plan : Plan, (Planner.ofModel readings).plan (.all readingTests) = .ok (plan, []) ∧
      plan.keyExpression.text = "#PK = :house_0 AND #PK = :meter_1 AND #SK > :time_2 AND #SK < :time_3" ∧
      plan.AddressesKeys (Planner.ofModel readings).slots readingTests) ∧
    ∃ (request : QueryRequest) (plan : Plan), readingQuery.build = .ok (request, []) ∧
      request.keyConditionExpression = plan.keyExpression.text? ∧
      plan.AddressesKeys (Planner.ofModel readings).slots readingTests := by
  obtain ⟨hplans, hqueries⟩ := keys_of_plan
  constructor
  · have hplan : ((Planner.ofModel readings).plan (.all readingTests)).toOption.map
        (fun split => (split.2, split.1.keyExpression.text)) =
        some ([], "#PK = :house_0 AND #PK = :meter_1 AND #SK > :time_2 AND #SK < :time_3") := by
      decide +kernel
    obtain ⟨⟨plan, warnings⟩, hplan, hsplit⟩ := exists_ok_of_map_toOption hplan
    obtain ⟨rfl, htext⟩ := Prod.mk.inj hsplit
    exact ⟨plan, hplan, htext, hplans _ _ _ _ readingTests_topLevel hplan⟩
  · have hbuild : readingQuery.build.toOption.map Prod.snd = some [] := by decide +kernel
    obtain ⟨⟨request, warnings⟩, hbuild, rfl⟩ := exists_ok_of_map_toOption hbuild
    have htop : ∀ condition ∈ readingQuery.chain.conditions, condition.LeavesFrom Leaf.IsTopLevel := by
      intro condition hcondition
      rw [List.mem_singleton.1 hcondition]
      exact readingTests_topLevel
    obtain ⟨planner, plan, hplanner, -, htext, hkeys⟩ := hqueries _ _ _ htop hbuild
    cases hplanner
    exact ⟨request, plan, hbuild, htext, hkeys⟩

/-- Not every plan addresses different keys: two tests on one attribute go to the same key. -/
theorem keys_not_all_different :
    ¬ ∀ (planner : Planner) (condition : Condition) (plan : Plan) (warnings : List Warning),
      (planner.slots.map Slot.name).Nodup → condition.LeavesFrom Leaf.IsTopLevel →
        planner.plan condition = .ok (plan, warnings) →
          plan.keyConditions.Pairwise fun a b => ∀ name, a.Addresses name → ¬ b.Addresses name := by
  intro hall
  have hplan : ((Planner.ofModel readings).plan (.all readingTests)).toOption.map
      (fun split => (split.1.keyConditions.drop 2)) =
        some [.leaf ⟨"#SK > :time_2", .singleton "#SK" "SK", .singleton ":time_2" (.string "AT#2024"), false,
            .compare .gt⟩,
          .leaf ⟨"#SK < :time_3", .singleton "#SK" "SK", .singleton ":time_3" (.string "AT#2025"), false,
            .compare .lt⟩] := by decide +kernel
  obtain ⟨⟨plan, warnings⟩, hplan, hkeys⟩ := exists_ok_of_map_toOption hplan
  have hpairwise := (hall _ _ _ _ (by decide +kernel) readingTests_topLevel hplan).drop (i := 2)
  rw [hkeys] at hpairwise
  have hdifferent := (List.pairwise_cons.1 hpairwise).1 _ (List.mem_singleton_self _) "SK"
  refine hdifferent ⟨_, .compare .gt ⟨"time", none⟩ (.string "2024"), [":time_2"], rfl, rfl, ?_, rfl⟩
    ⟨_, .compare .lt ⟨"time", none⟩ (.string "2025"), [":time_3"], rfl, rfl, ?_, rfl⟩
  · decide +kernel
  · decide +kernel

end SingleTable
