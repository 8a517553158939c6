import Mathlib.Data.List.Forall2
import SingleTable.Plan.Planner
import SingleTable.Proofs.Condition.Built
import SingleTable.Proofs.Condition.Minting

/-!
# Routing a conjunction

What the planner does with every condition, stated without its loops. A conjunction loses none of its
conjuncts, repeats none and keeps their order: those that cannot go to a key are the filters, and each of
the others has one key condition (`plan_of_warn`). A leaf goes to the first key whose template refers to
its attribute (`Leaf.GoesTo`); the key condition makes the same test on the physical key, with each value
replaced by what the template gives for it (`Leaf.RewrittenOn`).

The helper lemmas say of each function of the planner when it fails and what it returns otherwise.
-/

set_option autoImplicit false

namespace SingleTable

/-! ## The rules of routing -/

/-- The kinds of tests that the table answers from the order of its keys. -/
def keyKinds : List LeafKind :=
  [.compare .eq, .compare .lt, .compare .le, .compare .gt, .compare .ge, .between, .beginsWith]

/-- The conjuncts that the planner splits: the children of a conjunction that is not negated, or a single
leaf. A disjunction and a negated group have none. -/
def Condition.conjunction? : Condition → Option (List Condition)
  | .leaf test => some [.leaf test]
  | .group .and children false => some children
  | .group _ _ _ => none

/-- Whether a conjunct goes to a key: a leaf that is not negated, of a key kind, and with an attribute that
some key template refers to. -/
def Condition.isPushable (slots : List Slot) : Condition → Bool
  | .leaf test =>
    !test.negated && keyKinds.contains test.kind &&
      test.attribute?.any fun name => slots.any fun slot => slot.template.refersTo name
  | .group _ _ _ => false

/-- The value of an equality with an attribute that a condition states. -/
def Condition.valueOf? (name : String) : Condition → Option Value
  | .leaf test =>
    if test.negated = false ∧ test.kind = .compare .eq ∧ test.attribute? = some name then
      match test.values.values with
      | [value] => some value
      | _ => none
    else none
  | .group _ _ _ => none

/-- The value of an attribute in the first equality of a conjunction with it. -/
def pinned? (conjuncts : List Condition) (name : String) : Option Value :=
  conjuncts.findSome? (Condition.valueOf? name)

/-- The values for the template of a leaf with an attribute: the given one for this attribute, and those of
the equalities of the conjunction for the others. -/
def completed? (conjuncts : List Condition) (name : String) (value : Value) (other : String) :
    Option Value :=
  if other = name then some value else pinned? conjuncts other

/-- A leaf goes to the first key whose template refers to its attribute. -/
structure Leaf.GoesTo (slots : List Slot) (leaf : Leaf) (name : String) (slot : Slot) : Prop where
  /-- The leaf is not negated. -/
  positive : leaf.negated = false
  /-- The table answers the test from the order of keys. -/
  kind : leaf.kind ∈ keyKinds
  /-- The attribute of the leaf. -/
  tested : leaf.attribute? = some name
  /-- The first key whose template refers to the attribute. -/
  first : slots.find? (fun slot => slot.template.refersTo name) = some slot

/-- A leaf makes the test of another one, whose attribute is given, on the physical key of a slot. -/
structure Leaf.RewrittenOn (conjuncts : List Condition) (leaf : Leaf) (name : String) (slot : Slot)
    (rewritten : Leaf) : Prop where
  /-- The test is the same. -/
  kind : rewritten.kind = leaf.kind
  /-- The test is not negated. -/
  positive : rewritten.negated = false
  /-- The key stands wherever the attribute stood. -/
  text : rewritten.text = renameToken leaf.text (nameToken name) (nameToken slot.name)
  /-- Only the key is named. -/
  names : rewritten.names = .singleton (nameToken slot.name) slot.name
  /-- The placeholders are the same. -/
  placeholders : rewritten.values.names = leaf.values.names
  /-- Each placeholder stands for what the template gives for its value. -/
  values : ∀ placeholder value, leaf.values.get? placeholder = some value →
    ∃ key, slot.template.resolve (completed? conjuncts name value) = .ok key ∧
      rewritten.values.get? placeholder = some (.string key)

/-- A key condition is the rewritten form of a conjunct. -/
def Condition.RewrittenTo (slots : List Slot) (conjuncts : List Condition)
    (conjunct key : Condition) : Prop :=
  ∃ leaf name slot rewritten, conjunct = .leaf leaf ∧ leaf.GoesTo slots name slot ∧
    key = .leaf rewritten ∧ leaf.RewrittenOn conjuncts name slot rewritten

/-- A conjunct goes to a key whose template gives nothing for one of its values. -/
def Condition.Unresolvable (slots : List Slot) (conjuncts : List Condition)
    (conjunct : Condition) : Prop :=
  ∃ leaf name slot, conjunct = .leaf leaf ∧ leaf.GoesTo slots name slot ∧
    ∃ placeholder value failure, leaf.values.get? placeholder = some value ∧
      slot.template.resolve (completed? conjuncts name value) = .error failure

/-- The leaves of a conjunct are leaves of the condition. -/
theorem mem_leaves_of_conjunct {condition conjunct : Condition} {conjuncts : List Condition} {leaf : Leaf}
    (h : condition.conjunction? = some conjuncts) (hconjunct : conjunct ∈ conjuncts)
    (hleaf : leaf ∈ conjunct.leaves) : leaf ∈ condition.leaves := by
  cases condition with
  | leaf test =>
    cases h
    rwa [List.mem_singleton.1 hconjunct] at hleaf
  | group joiner children negated =>
    cases joiner with
    | or => cases h
    | and =>
      cases negated with
      | true => cases h
      | false =>
        cases h
        exact Condition.mem_leavesOfAll_iff.2 ⟨conjunct, hconjunct, hleaf⟩

/-- A test that the table answers from the order of keys is not void. -/
theorem isVoid_eq_false {test : Test} (h : test.kind ∈ keyKinds) : test.isVoid = false := by
  cases hvoid : test.isVoid with
  | false => rfl
  | true =>
    obtain ⟨target, rfl⟩ := eq_oneOf_of_isVoid hvoid
    rw [Test.kind] at h
    exact absurd h (by decide)

/-! ## Related lists -/

section Related

variable {α β : Type} {R : α → β → Prop} {left : List α} {right : List β}

theorem exists_right_of_mem (h : List.Forall₂ R left right) {a : α} (ha : a ∈ left) :
    ∃ b ∈ right, R a b := by
  induction h with
  | nil => cases ha
  | cons hhead _ ih =>
    rcases List.mem_cons.1 ha with rfl | ha
    · exact ⟨_, List.mem_cons_self, hhead⟩
    · obtain ⟨b, hb, hrel⟩ := ih ha
      exact ⟨b, List.mem_cons_of_mem _ hb, hrel⟩

theorem exists_left_of_mem (h : List.Forall₂ R left right) {b : β} (hb : b ∈ right) :
    ∃ a ∈ left, R a b :=
  exists_right_of_mem h.flip hb

/-- Of related members of a filtered list it is known that they are members of the list. -/
theorem forall₂_filter_mem {p : α → Bool} {list : List α} (h : List.Forall₂ R (list.filter p) right) :
    List.Forall₂ (fun a b => a ∈ list ∧ R a b) (list.filter p) right :=
  (List.forall₂_and_left (p := (· ∈ list)) _ _).2 ⟨fun _ hmem => List.mem_of_mem_filter hmem, h⟩

theorem map_eq_map_of_forall₂ {γ : Type} {f : α → γ} {g : β → γ}
    (h : List.Forall₂ R left right) (hR : ∀ a b, R a b → g b = f a) : right.map g = left.map f := by
  induction h with
  | nil => rfl
  | cons hhead _ ih => rw [List.map_cons, List.map_cons, hR _ _ hhead, ih]

end Related

/-! ## Slots -/

theorem isKeyTest_iff (kind : LeafKind) : kind.isKeyTest = true ↔ kind ∈ keyKinds := by
  cases kind with
  | compare comparison => cases comparison <;> decide
  | size comparison => cases comparison <;> decide
  | between => decide
  | beginsWith => decide
  | contains => decide
  | present => decide
  | absent => decide
  | hasType => decide
  | oneOf => decide
  | raw => decide

/-- Numbering a list does not change what is found first. -/
theorem find?_zipIdx {α : Type} (p : α → Bool) (items : List α) (start : Nat) :
    ((items.zipIdx start).find? fun item => p item.1).map Prod.fst = items.find? p := by
  induction items generalizing start with
  | nil => rfl
  | cons item rest ih =>
    rw [List.zipIdx_cons, List.find?_cons, List.find?_cons]
    cases h : p item with
    | true => simp
    | false => simpa [h] using ih (start + 1)

theorem slotOf?_map_fst (slots : List Slot) (name : String) :
    (slotOf? slots name).map Prod.fst = slots.find? fun slot => slot.template.refersTo name :=
  find?_zipIdx (fun slot : Slot => slot.template.refersTo name) slots 0

/-- The slot of a leaf is the one that it goes to. -/
theorem goesTo_of_slot? {slots : List Slot} {leaf : Leaf} {name : String} {slot : Slot}
    {position : Nat} (h : leaf.slot? slots = some (name, slot, position)) :
    leaf.GoesTo slots name slot := by
  rw [Leaf.slot?] at h
  split at h
  · cases h
  · rename_i hkey
    rw [Bool.or_eq_true, not_or, Bool.not_eq_true, Bool.not_eq_true', Bool.not_eq_false] at hkey
    obtain ⟨found, hname, hslot⟩ := Option.bind_eq_some_iff.1 h
    obtain ⟨⟨first, index⟩, hfirst, heq⟩ := Option.bind_eq_some_iff.1 hslot
    cases heq
    refine ⟨hkey.1, (isKeyTest_iff _).1 hkey.2, hname, ?_⟩
    rw [← slotOf?_map_fst, hfirst, Option.map_some]

/-- A leaf that goes to a key has a slot. -/
theorem Leaf.GoesTo.slot? {slots : List Slot} {leaf : Leaf} {name : String} {slot : Slot}
    (h : leaf.GoesTo slots name slot) : ∃ position, leaf.slot? slots = some (name, slot, position) := by
  have hfirst := h.first
  rw [← slotOf?_map_fst] at hfirst
  obtain ⟨⟨found, position⟩, hfound, rfl⟩ := Option.map_eq_some_iff.1 hfirst
  refine ⟨position, ?_⟩
  rw [Leaf.slot?, h.positive, (isKeyTest_iff _).2 h.kind, h.tested]
  simp [hfound]

/-- A leaf goes to one key at most. -/
theorem Leaf.GoesTo.unique {slots : List Slot} {leaf : Leaf} {name name' : String} {slot slot' : Slot}
    (h : leaf.GoesTo slots name slot) (h' : leaf.GoesTo slots name' slot') :
    name' = name ∧ slot' = slot := by
  have hname : name' = name := Option.some.inj (h'.tested.symm.trans h.tested)
  subst hname
  exact ⟨rfl, Option.some.inj (h'.first.symm.trans h.first)⟩

/-- The leaves that go to a key are the pushable ones. -/
theorem isPushable_leaf_iff (slots : List Slot) (leaf : Leaf) :
    (Condition.leaf leaf).isPushable slots = true ↔ ∃ name slot, leaf.GoesTo slots name slot := by
  constructor
  · intro h
    rw [Condition.isPushable, Bool.and_eq_true, Bool.and_eq_true, Bool.not_eq_true',
      List.contains_iff_mem, Option.any_eq_true] at h
    obtain ⟨⟨hpositive, hkind⟩, name, hname, hused⟩ := h
    obtain ⟨slot, hslot⟩ := Option.isSome_iff_exists.1 (List.find?_isSome.2 (List.any_eq_true.1 hused))
    exact ⟨name, slot, hpositive, hkind, hname, hslot⟩
  · rintro ⟨name, slot, h⟩
    have hused : (slots.any fun slot => slot.template.refersTo name) = true := by
      rw [List.any_eq_true]
      refine ⟨slot, List.mem_of_find?_eq_some h.first, ?_⟩
      exact List.find?_some (p := fun slot : Slot => slot.template.refersTo name) h.first
    rw [Condition.isPushable, h.positive, h.tested, List.contains_iff_mem.2 h.kind]
    simpa using hused

theorem slot?_eq_none_iff (slots : List Slot) (leaf : Leaf) :
    leaf.slot? slots = none ↔ (Condition.leaf leaf).isPushable slots = false := by
  rw [← Bool.not_eq_true, isPushable_leaf_iff]
  constructor
  · rintro hnone ⟨name, slot, h⟩
    obtain ⟨position, hsome⟩ := h.slot?
    rw [hnone] at hsome
    cases hsome
  · intro h
    cases hslot : leaf.slot? slots with
    | none => rfl
    | some found => exact absurd ⟨_, _, goesTo_of_slot? hslot⟩ h

/-! ## Bindings -/

/-- The equality that the planner reads off a condition gives the value of its attribute only. -/
theorem equality?_iff (condition : Condition) (name : String) (value : Value) :
    condition.equality? = some (name, value) ↔ condition.valueOf? name = some value := by
  cases condition with
  | group joiner children negated => simp [Condition.equality?, Condition.valueOf?]
  | leaf leaf =>
    rw [Condition.equality?, Condition.valueOf?, Leaf.equality?]
    by_cases hequal : leaf.negated = false ∧ leaf.kind = .compare .eq
    · obtain ⟨hpositive, hkind⟩ := hequal
      rw [hpositive, hkind]
      -- Both sides need an attribute and exactly one value.
      cases hname : leaf.attribute? with
      | none => simp
      | some found =>
        cases hvalues : leaf.values.values with
        | nil => simp
        | cons first rest =>
          cases rest with
          | nil => by_cases h : found = name <;> simp [h]
          | cons second rest => simp
    · have hleft : (leaf.negated || leaf.kind != .compare .eq) = true := by
        rw [Bool.or_eq_true, bne_iff_ne]
        by_cases hneg : leaf.negated = true
        · exact Or.inl hneg
        · exact Or.inr fun hkind => hequal ⟨Bool.eq_false_iff.2 hneg, hkind⟩
      have hright : ¬ (leaf.negated = false ∧ leaf.kind = .compare .eq ∧
          leaf.attribute? = some name) := fun h => hequal ⟨h.1, h.2.1⟩
      rw [if_pos hleft, if_neg hright]
      constructor <;> intro h <;> cases h

/-- The bindings of a conjunction hold the value of its first equality with each attribute. -/
theorem get?_bindings (conjuncts : List Condition) (name : String) :
    (bindings conjuncts).get? name = pinned? conjuncts name := by
  rw [bindings, Dict.get?_ofList, List.reverse_reverse, pinned?]
  -- The list is reversed before it is written, so the entry that counts is the first again.
  induction conjuncts with
  | nil => rfl
  | cons conjunct rest ih =>
    rw [List.filterMap_cons, List.findSome?_cons, ← ih]
    cases hvalue : conjunct.valueOf? name with
    | some value =>
      rw [(equality?_iff conjunct name value).2 hvalue]
      exact if_pos rfl
    | none =>
      cases hequality : conjunct.equality? with
      | none => rfl
      | some equality =>
        obtain ⟨other, value⟩ := equality
        have hne : name ≠ other := by
          rintro rfl
          rw [(equality?_iff conjunct name value).1 hequality] at hvalue
          cases hvalue
        exact if_neg hne

theorem slotLookup_bindings (conjuncts : List Condition) (name : String) (value : Value) :
    slotLookup (bindings conjuncts) name value = completed? conjuncts name value := by
  funext other
  rw [slotLookup, completed?, get?_bindings]

/-! ## Values -/

/-- The values of a leaf get keys in order, and none is left out. -/
theorem physicalValues_ok {template : Template} {bindings : Dict Value} {name : String}
    {entries keys : List (String × Value)}
    (h : physicalValues template bindings name entries = .ok keys) :
    List.Forall₂ (fun entry key => ∃ text, key = (entry.1, .string text) ∧
      template.resolve (slotLookup bindings name entry.2) = .ok text) entries keys := by
  induction entries generalizing keys with
  | nil =>
    cases h
    exact .nil
  | cons entry rest ih =>
    rw [physicalValues, bind_eq_ok_iff] at h
    obtain ⟨text, htext, h⟩ := h
    obtain ⟨more, hmore, h⟩ := bind_eq_ok_iff.1 h
    cases h
    exact .cons ⟨text, rfl, htext⟩ (ih hmore)

/-- The values of a leaf fail when one of them gives no key. -/
theorem physicalValues_error_iff (template : Template) (bindings : Dict Value) (name : String)
    (entries : List (String × Value)) :
    (∃ failure, physicalValues template bindings name entries = .error failure) ↔
      ∃ entry ∈ entries, ∃ failure,
        template.resolve (slotLookup bindings name entry.2) = .error failure := by
  induction entries with
  | nil => simp [physicalValues]
  | cons entry rest ih =>
    obtain ⟨placeholder, value⟩ := entry
    rw [physicalValues, List.exists_mem_cons_iff, ← ih]
    cases htext : template.resolve (slotLookup bindings name value) with
    | error failure => simp [bind, Except.bind]
    | ok text =>
      cases hmore : physicalValues template bindings name rest with
      | error failure => simp [bind, Except.bind]
      | ok more => simp [bind, Except.bind]

/-! ## Leaves -/

/-- A leaf that cannot go to a key is left to the filters. -/
theorem route_of_not_pushable {slots : List Slot} {leaf : Leaf} (bindings : Dict Value)
    (h : (Condition.leaf leaf).isPushable slots = false) : route slots bindings leaf = .ok none := by
  rw [route, (slot?_eq_none_iff slots leaf).2 h]

/-- A leaf that goes to a key is routed there as soon as its values give keys. -/
theorem Leaf.GoesTo.route {slots : List Slot} {leaf : Leaf} {name : String} {slot : Slot}
    (h : leaf.GoesTo slots name slot) :
    ∃ position, ∀ bindings, route slots bindings leaf =
      (physicalValues slot.template bindings name leaf.values.entries).map fun keys =>
        some ⟨name, position, slot.name, leaf.onKey name slot keys⟩ := by
  obtain ⟨position, hslot⟩ := h.slot?
  refine ⟨position, fun bindings => ?_⟩
  rw [SingleTable.route, hslot]
  rfl

/-- The keys for the values of a leaf stand under its placeholders. -/
theorem rewrittenOn_onKey {leaf : Leaf} {name : String} {slot : Slot} {conjuncts : List Condition}
    {keys : List (String × Value)}
    (h : physicalValues slot.template (bindings conjuncts) name leaf.values.entries = .ok keys) :
    leaf.RewrittenOn conjuncts name slot (leaf.onKey name slot keys) := by
  have hall := physicalValues_ok h
  have hnames : keys.map Prod.fst = leaf.values.entries.map Prod.fst :=
    map_eq_map_of_forall₂ hall fun entry key ⟨text, hkey, _⟩ => by rw [hkey]
  -- The placeholders of the leaf are in order, so the dictionary of the keys lists them as they are.
  have hincreasing : Increasing keys := by
    have hordered : (keys.map Prod.fst).Pairwise (· < ·) := by
      rw [hnames]
      exact List.pairwise_map.2 leaf.values.increasing
    exact List.pairwise_map.1 hordered
  have hdict : Dict.ofList keys = ⟨keys, hincreasing⟩ := Dict.ofList_entries ⟨keys, hincreasing⟩
  refine ⟨rfl, rfl, rfl, rfl, ?_, ?_⟩
  · rw [Leaf.onKey, hdict]
    exact hnames
  · intro placeholder value hvalue
    obtain ⟨key, hkey, text, rfl, htext⟩ :=
      exists_right_of_mem hall (Dict.mem_entries_iff.2 hvalue)
    rw [slotLookup_bindings] at htext
    refine ⟨text, htext, ?_⟩
    rw [Leaf.onKey, hdict]
    exact Dict.mem_entries_iff.1 hkey

/-- What a leaf that goes to a key is routed to. -/
theorem route_ok {slots : List Slot} {leaf : Leaf} {name : String} {slot : Slot}
    {conjuncts : List Condition} {routed : Option Pushed} (hgoes : leaf.GoesTo slots name slot)
    (h : route slots (bindings conjuncts) leaf = .ok routed) :
    ∃ pushed, routed = some pushed ∧ leaf.RewrittenOn conjuncts name slot pushed.leaf := by
  obtain ⟨position, hroute⟩ := hgoes.route
  rw [hroute] at h
  cases hkeys : physicalValues slot.template (bindings conjuncts) name leaf.values.entries with
  | error failure =>
    rw [hkeys] at h
    cases h
  | ok keys =>
    rw [hkeys] at h
    cases h
    exact ⟨_, rfl, rewrittenOn_onKey hkeys⟩

/-- Routing a leaf fails when the leaf goes to a key whose template gives nothing for one of its values. -/
theorem route_error_iff (slots : List Slot) (conjuncts : List Condition) (leaf : Leaf) :
    (∃ failure, route slots (bindings conjuncts) leaf = .error failure) ↔
      (Condition.leaf leaf).Unresolvable slots conjuncts := by
  -- For a leaf that goes to a key, the failure is that of one of its values.
  have hroute : ∀ name slot, leaf.GoesTo slots name slot →
      ((∃ failure, route slots (bindings conjuncts) leaf = .error failure) ↔
        ∃ entry ∈ leaf.values.entries, ∃ failure,
          slot.template.resolve (completed? conjuncts name entry.2) = .error failure) := by
    intro name slot hgoes
    obtain ⟨position, hroute⟩ := hgoes.route
    simp only [← slotLookup_bindings]
    rw [← physicalValues_error_iff, hroute]
    cases physicalValues slot.template (bindings conjuncts) name leaf.values.entries with
    | error failure => simp [Except.map]
    | ok keys => simp [Except.map]
  constructor
  · rintro ⟨failure, h⟩
    cases hpushable : (Condition.leaf leaf).isPushable slots with
    | false =>
      rw [route_of_not_pushable _ hpushable] at h
      cases h
    | true =>
      obtain ⟨name, slot, hgoes⟩ := (isPushable_leaf_iff slots leaf).1 hpushable
      obtain ⟨⟨placeholder, value⟩, hentry, cause, hcause⟩ := (hroute name slot hgoes).1 ⟨failure, h⟩
      exact ⟨leaf, name, slot, rfl, hgoes, placeholder, value, cause,
        Dict.mem_entries_iff.1 hentry, hcause⟩
  · rintro ⟨found, name, slot, heq, hgoes, placeholder, value, cause, hvalue, hcause⟩
    cases heq
    exact (hroute name slot hgoes).2
      ⟨(placeholder, value), Dict.mem_entries_iff.2 hvalue, cause, hcause⟩

/-! ## Conjunctions -/

/-- What a conjunct adds to a plan: a leaf on a key, or itself as a filter. -/
def Condition.place (slots : List Slot) (bindings : Dict Value) :
    Condition → Except Failure (Pushed ⊕ Condition)
  | .leaf test => do
    match ← route slots bindings test with
    | some pushed => .ok (.inl pushed)
    | none => .ok (.inr (.leaf test))
  | .group joiner children negated => .ok (.inr (.group joiner children negated))

section Places

variable {slots : List Slot} {dict : Dict Value} {conjunct : Condition}
  {conjuncts filters : List Condition} {part : Pushed ⊕ Condition} {pushed : List Pushed}

/-- A conjunct that cannot go to a key is a filter. -/
theorem place_of_not_pushable (h : conjunct.isPushable slots = false) :
    conjunct.place slots dict = .ok (.inr conjunct) := by
  cases conjunct with
  | group joiner children negated => rfl
  | leaf leaf =>
    rw [Condition.place, route_of_not_pushable dict h]
    rfl

/-- A conjunct that can go to a key does, whatever it is routed to. -/
theorem place_ok (hkey : conjunct.isPushable slots = true)
    (h : conjunct.place slots dict = .ok part) :
    ∃ leaf name slot pushed, conjunct = .leaf leaf ∧ part = .inl pushed ∧
      leaf.GoesTo slots name slot ∧ route slots dict leaf = .ok (some pushed) := by
  cases conjunct with
  | group joiner children negated => cases hkey
  | leaf leaf =>
    obtain ⟨name, slot, hgoes⟩ := (isPushable_leaf_iff slots leaf).1 hkey
    obtain ⟨position, hroute⟩ := hgoes.route
    obtain ⟨routed, hrouted, hpart⟩ := bind_eq_ok_iff.1 h
    cases routed with
    | some pushed =>
      cases hpart
      exact ⟨leaf, name, slot, pushed, rfl, rfl, hgoes, hrouted⟩
    | none =>
      -- The route of a leaf with a slot leads to the slot.
      rw [hroute] at hrouted
      cases hkeys : physicalValues slot.template dict name leaf.values.entries with
      | error failure =>
        rw [hkeys] at hrouted
        cases hrouted
      | ok keys =>
        rw [hkeys] at hrouted
        cases hrouted

/-- A conjunct has no place if it cannot be resolved. -/
theorem place_error_iff (slots : List Slot) (conjuncts : List Condition) (conjunct : Condition) :
    (∃ failure, conjunct.place slots (bindings conjuncts) = .error failure) ↔
      conjunct.Unresolvable slots conjuncts := by
  cases conjunct with
  | group joiner children negated => simp [Condition.place, Condition.Unresolvable]
  | leaf leaf =>
    rw [← route_error_iff, Condition.place]
    cases route slots (bindings conjuncts) leaf with
    | error failure => simp [bind, Except.bind]
    | ok routed => cases routed <;> simp [bind, Except.bind]

/-- The first of some conjuncts is put in its place before the others are routed. -/
theorem routeAll_cons (conjunct : Condition) (rest : List Condition) :
    routeAll slots dict (conjunct :: rest) =
      (conjunct.place slots dict).bind fun part => (routeAll slots dict rest).bind fun more =>
        .ok (part.getLeft?.toList ++ more.1, part.getRight?.toList ++ more.2) := by
  cases conjunct with
  | group joiner children negated => rfl
  | leaf test =>
    rw [routeAll, Condition.place]
    cases route slots dict test with
    | error failure => rfl
    | ok routed => cases routed <;> rfl

/-- Conjuncts are routed if each of them has a place. -/
theorem routeAll_eq_ok_iff :
    routeAll slots dict conjuncts = .ok (pushed, filters) ↔
      ∃ parts, List.Forall₂ (fun conjunct part => conjunct.place slots dict = .ok part) conjuncts parts ∧
        pushed = parts.filterMap Sum.getLeft? ∧ filters = parts.filterMap Sum.getRight? := by
  induction conjuncts generalizing pushed filters with
  | nil =>
    simp only [List.forall₂_nil_left_iff, exists_eq_left, List.filterMap_nil]
    constructor
    · intro h
      cases h
      exact ⟨rfl, rfl⟩
    · rintro ⟨rfl, rfl⟩
      rfl
  | cons conjunct rest ih =>
    have hcons (part : Pushed ⊕ Condition) (parts : List (Pushed ⊕ Condition)) :
        part.getLeft?.toList ++ parts.filterMap Sum.getLeft? = (part :: parts).filterMap Sum.getLeft? ∧
          part.getRight?.toList ++ parts.filterMap Sum.getRight? =
            (part :: parts).filterMap Sum.getRight? := by
      cases part <;> exact ⟨rfl, rfl⟩
    rw [routeAll_cons]
    constructor
    · intro h
      obtain ⟨part, hpart, h⟩ := bind_eq_ok_iff.1 h
      obtain ⟨⟨restPushed, restFilters⟩, hrest, h⟩ := bind_eq_ok_iff.1 h
      obtain ⟨parts, hparts, rfl, rfl⟩ := ih.1 hrest
      cases h
      exact ⟨part :: parts, .cons hpart hparts, (hcons part parts).1, (hcons part parts).2⟩
    · rintro ⟨_, hparts, rfl, rfl⟩
      cases hparts with
      | @cons _ part _ parts hpart hparts =>
        refine bind_eq_ok_iff.2 ⟨part, hpart, bind_eq_ok_iff.2 ⟨_, ih.2 ⟨parts, hparts, rfl, rfl⟩, ?_⟩⟩
        rw [(hcons part parts).1, (hcons part parts).2]

/-- Routing a conjunction fails when one of its conjuncts has no place. -/
theorem routeAll_error_iff (slots : List Slot) (dict : Dict Value) (conjuncts : List Condition) :
    (∃ failure, routeAll slots dict conjuncts = .error failure) ↔
      ∃ conjunct ∈ conjuncts, ∃ failure, conjunct.place slots dict = .error failure := by
  induction conjuncts with
  | nil => simp [routeAll]
  | cons conjunct rest ih =>
    rw [routeAll_cons, List.exists_mem_cons_iff, ← ih]
    cases conjunct.place slots dict with
    | error failure => simp [Except.bind]
    | ok part => cases routeAll slots dict rest <;> simp [Except.bind]

end Places

/-- Routing some conjuncts of a conjunction sorts them in two and keeps their order. -/
theorem routeAll_ok {slots : List Slot} {conjuncts part filters : List Condition}
    {pushed : List Pushed} (h : routeAll slots (bindings conjuncts) part = .ok (pushed, filters)) :
    filters = part.filter (fun conjunct => !conjunct.isPushable slots) ∧
      List.Forall₂ (Condition.RewrittenTo slots conjuncts)
        (part.filter fun conjunct => conjunct.isPushable slots)
        (pushed.map fun entry => .leaf entry.leaf) := by
  obtain ⟨parts, hparts, rfl, rfl⟩ := routeAll_eq_ok_iff.1 h
  clear h
  -- The bindings are those of the whole conjunction while the induction shortens the part.
  induction hparts with
  | nil => exact ⟨rfl, .nil⟩
  | @cons conjunct place rest places hplace _ ih =>
    obtain ⟨hfilters, hpushed⟩ := ih
    -- Whether the conjunct is pushable decides which of the two lists it joins.
    cases hkey : conjunct.isPushable slots with
    | false =>
      rw [place_of_not_pushable hkey] at hplace
      cases hplace
      exact ⟨by simp [hfilters, hkey], by simpa [List.filterMap_cons, hkey] using hpushed⟩
    | true =>
      obtain ⟨leaf, name, slot, entry, rfl, rfl, hgoes, hroute⟩ := place_ok hkey hplace
      obtain ⟨_, heq, hrewritten⟩ := route_ok hgoes hroute
      cases heq
      refine ⟨by simp [List.filterMap_cons, hfilters, hkey], ?_⟩
      rw [List.filter_cons, if_pos hkey]
      exact .cons ⟨leaf, name, slot, _, rfl, hgoes, rfl, hrewritten⟩ hpushed

/-- Routing a conjunction fails when one of its conjuncts cannot be resolved. -/
theorem routeAll_unresolvable_iff (slots : List Slot) (conjuncts : List Condition) :
    (∃ failure, routeAll slots (bindings conjuncts) conjuncts = .error failure) ↔
      ∃ conjunct ∈ conjuncts, conjunct.Unresolvable slots conjuncts := by
  simp only [routeAll_error_iff, place_error_iff]

namespace Planner

/-- A conjunction is split in filters and rewritten key conditions, under either policy. -/
theorem planAll_ok {planner : Planner} {conjuncts : List Condition} {plan : Plan}
    {warnings : List Warning} (h : planner.planAll conjuncts = .ok (plan, warnings)) :
    plan.filterConditions = conjuncts.filter (fun conjunct => !conjunct.isPushable planner.slots) ∧
      List.Forall₂ (Condition.RewrittenTo planner.slots conjuncts)
        (conjuncts.filter fun conjunct => conjunct.isPushable planner.slots)
        plan.keyConditions := by
  rw [planAll, bind_eq_ok_iff] at h
  obtain ⟨⟨pushed, filters⟩, hroute, h⟩ := h
  -- The report about shadowed keys changes nothing of the plan.
  obtain ⟨reported, -, h⟩ := bind_eq_ok_iff.1 h
  cases h
  exact routeAll_ok hroute

/-- Under the lenient policy nothing but a leaf that cannot be routed makes a plan fail. -/
theorem planAll_error_iff (model : String) (slots : List Slot) (conjuncts : List Condition) :
    (∃ failure, planAll ⟨model, slots, .warn⟩ conjuncts = .error failure) ↔
      ∃ conjunct ∈ conjuncts, conjunct.Unresolvable slots conjuncts := by
  rw [← routeAll_unresolvable_iff, planAll]
  cases routeAll slots (bindings conjuncts) conjuncts with
  | error failure => simp [bind, Except.bind]
  | ok split => simp [bind, Except.bind, judge]

/-- A condition with conjuncts is planned by splitting them. -/
theorem plan_of_conjunction {condition : Condition} {conjuncts : List Condition} (planner : Planner)
    (h : condition.conjunction? = some conjuncts) :
    planner.plan condition = planner.planAll conjuncts := by
  cases condition with
  | leaf leaf =>
    cases h
    rfl
  | group joiner children negated =>
    cases joiner with
    | or => cases h
    | and =>
      cases negated with
      | true => cases h
      | false =>
        cases h
        rfl

/-- A condition without conjuncts is a filter as a whole. -/
theorem plan_of_no_conjunction {condition : Condition} (planner : Planner)
    (h : condition.conjunction? = none) : planner.plan condition = .ok (.filterOnly condition, []) := by
  cases condition with
  | leaf leaf => cases h
  | group joiner children negated =>
    cases joiner with
    | or => rfl
    | and =>
      cases negated with
      | false => cases h
      | true => rfl

section Conjunctions

variable {planner : Planner} {condition : Condition} {conjuncts : List Condition} {plan : Plan}
  {warnings : List Warning}

/-- The conjuncts that go to keys have their key conditions in order. -/
theorem rewrittenTo_of_plan (hgroup : condition.conjunction? = some conjuncts)
    (hplan : planner.plan condition = .ok (plan, warnings)) :
    List.Forall₂ (fun conjunct key => conjunct ∈ conjuncts ∧
        conjunct.RewrittenTo planner.slots conjuncts key)
      (conjuncts.filter fun conjunct => conjunct.isPushable planner.slots) plan.keyConditions := by
  rw [plan_of_conjunction _ hgroup] at hplan
  exact forall₂_filter_mem (planAll_ok hplan).2

/-- A key condition is the rewritten form of a leaf of the conjunction. -/
theorem exists_leaf_of_keyCondition (hgroup : condition.conjunction? = some conjuncts)
    (hplan : planner.plan condition = .ok (plan, warnings)) {pushed : Leaf}
    (hpushed : .leaf pushed ∈ plan.keyConditions) :
    ∃ leaf name slot, .leaf leaf ∈ conjuncts ∧ leaf.GoesTo planner.slots name slot ∧
      leaf.RewrittenOn conjuncts name slot pushed := by
  obtain ⟨_, -, hmem, leaf, name, slot, rewritten, rfl, hgoes, heq, hrewritten⟩ :=
    exists_left_of_mem (rewrittenTo_of_plan hgroup hplan) hpushed
  cases heq
  exact ⟨leaf, name, slot, hmem, hgoes, hrewritten⟩

end Conjunctions

/-- **Routing is exact.** A disjunction and a negated group are a filter as a whole. The plan of a
conjunction fails exactly when the template of a conjunct that goes to a key gives nothing for one of its
values; otherwise the conjuncts that go to no key are the filters, unchanged and in order, and the others
have one key condition each, in order. -/
theorem plan_of_warn (model : String) (slots : List Slot) :
    (∀ joiner children negated, joiner = .or ∨ negated = true →
      plan ⟨model, slots, .warn⟩ (.group joiner children negated) =
        .ok (⟨[], [.group joiner children negated]⟩, [])) ∧
    ∀ condition conjuncts, condition.conjunction? = some conjuncts →
      ((∃ failure, plan ⟨model, slots, .warn⟩ condition = .error failure) ↔
        ∃ conjunct ∈ conjuncts, conjunct.Unresolvable slots conjuncts) ∧
      ∀ split warnings, plan ⟨model, slots, .warn⟩ condition = .ok (split, warnings) →
        split.filterConditions = conjuncts.filter (fun conjunct => !conjunct.isPushable slots) ∧
        List.Forall₂ (Condition.RewrittenTo slots conjuncts)
          (conjuncts.filter fun conjunct => conjunct.isPushable slots) split.keyConditions := by
  constructor
  · intro joiner children negated hwhole
    cases joiner with
    | or => rfl
    | and =>
      rcases hwhole with hjoiner | rfl
      · cases hjoiner
      · rfl
  · intro condition conjuncts hconjuncts
    rw [plan_of_conjunction _ hconjuncts]
    exact ⟨planAll_error_iff model slots conjuncts, fun split warnings h => planAll_ok h⟩

/-! ### Loans of a library -/

/-- The keys of loans. -/
def loanSlots : List Slot := [⟨"PK", .parse "READER#${reader}"⟩, ⟨"SK", .parse "LOAN#${reader}#${due}"⟩]

/-- Loans that are due in some year or later. -/
def loansDue : Condition := .leaf ((Test.compare .ge ⟨"due", none⟩ (.string "2024")).leaf 0)

/-- Loans with a note. -/
def loansNoted : Condition := .leaf ((Test.contains ⟨"notes", none⟩ (.string "late")).leaf 1)

/-- The loans of a reader. -/
def loansOfReader : Condition := .leaf ((Test.compare .eq ⟨"reader", none⟩ (.string "ann")).leaf 2)

/-- The conditions on the loans of a reader, the equality last. -/
def loanConjuncts : List Condition := [loansDue, loansNoted, loansOfReader]

/-- The key conditions for the loans of a reader that are due in some year or later. -/
def loanKeys : List Condition :=
  [.leaf {
      text := "#SK >= :due_0"
      names := .singleton "#SK" "SK"
      values := .singleton ":due_0" (.string "LOAN#ann#2024")
      negated := false
      kind := .compare .ge },
    .leaf {
      text := "#PK = :reader_2"
      names := .singleton "#PK" "PK"
      values := .singleton ":reader_2" (.string "READER#ann")
      negated := false
      kind := .compare .eq }]

/-- The reader completes the sort key, although the equality stands behind the test that it completes. Without the
equality the sort key is not resolved, and a disjunction is a filter as a whole. -/
theorem plan_of_warn_loans :
    (∃ split, plan ⟨"Loan", loanSlots, .warn⟩ (.all loanConjuncts) = .ok (split, []) ∧
      split.filterConditions = [loansNoted] ∧ split.keyConditions = loanKeys ∧
      List.Forall₂ (Condition.RewrittenTo loanSlots loanConjuncts) [loansDue, loansOfReader] loanKeys) ∧
    loansDue.Unresolvable loanSlots [loansDue] ∧
    plan ⟨"Loan", loanSlots, .warn⟩ (.group .or [loansDue, loansOfReader] false) =
      .ok (⟨[], [.group .or [loansDue, loansOfReader] false]⟩, []) := by
  obtain ⟨hwhole, hconjunction⟩ := plan_of_warn "Loan" loanSlots
  refine ⟨?_, ?_, hwhole .or _ false (Or.inl rfl)⟩
  · have hkeys : (plan ⟨"Loan", loanSlots, .warn⟩ (.all loanConjuncts)).toOption.map
        (fun planned => (planned.1.keyConditions, planned.2)) = some (loanKeys, []) := by
      decide +kernel
    obtain ⟨⟨split, warnings⟩, hplan, hparts⟩ := exists_ok_of_map_toOption hkeys
    obtain ⟨hsplit, rfl⟩ : split.keyConditions = loanKeys ∧ warnings = [] := Prod.mk.inj hparts
    obtain ⟨hfilters, hrewritten⟩ := (hconjunction _ loanConjuncts rfl).2 split [] hplan
    have hpushable : loanConjuncts.filter (fun conjunct => conjunct.isPushable loanSlots) =
        [loansDue, loansOfReader] := by
      decide +kernel
    rw [hpushable, hsplit] at hrewritten
    exact ⟨split, hplan, hfilters.trans (by decide +kernel), hsplit, hrewritten⟩
  · have hfailure : ∃ failure, plan ⟨"Loan", loanSlots, .warn⟩ loansDue = .error failure := by
      refine ⟨.missingReferences "LOAN#${reader}#${due}" ["reader"], ?_⟩
      decide +kernel
    obtain ⟨conjunct, hmem, hunresolvable⟩ := (hconjunction loansDue [loansDue] rfl).1.1 hfailure
    rwa [List.mem_singleton.1 hmem] at hunresolvable

end Planner

end SingleTable
