import SingleTable.Proofs.Condition.StringTests
import SingleTable.Proofs.Plan.KeyConditions
import SingleTable.Proofs.Template.Filling

/-!
# Ranges of keys

A range or a beginning of one attribute becomes one of a whole key, in which a text stands in front of the
attribute and another one behind it. What stands in front makes no difference. What stands behind does: the
key condition says of the keys what the test says of the values with their rests (`key_conditions_hold`). So
an item that passes the test passes the key condition too if nothing follows the attribute, or if the test is
a comparison and its operands are the value itself or diverge from it. A beginning is kept in general only if
nothing follows (`keeps_beginnings_iff`).
-/

set_option autoImplicit false

namespace SingleTable

/-! ## Keys of values -/

namespace Slot

variable {slot : Slot} {conjuncts : List Condition} {name : String}

/-- The key of a slot with a value for one name and the equalities of a conjunction for the others. -/
def keyOf (slot : Slot) (conjuncts : List Condition) (name value : String) : String :=
  Template.filled (completed? conjuncts name (.string value)) slot.template.segments

/-- What such a key has in front of the value. -/
def frontOf (slot : Slot) (conjuncts : List Condition) (name : String) : String :=
  Template.filled (pinned? conjuncts) (slot.template.before name)

/-- What such a key has behind the value, in which the value may occur again. -/
def restOf (slot : Slot) (conjuncts : List Condition) (name value : String) : String :=
  slot.template.rest name (completed? conjuncts name (.string value))

theorem textOf_completed? (value : String) :
    Template.textOf (completed? conjuncts name (.string value)) name = value := by
  rw [Template.textOf, completed?, if_pos rfl]
  rfl

/-- A key with a value stands between its front, which is the same for all values, and its rest. -/
theorem keyOf_eq (h : slot.template.refersTo name = true) (value : String) :
    slot.keyOf conjuncts name value =
      slot.frontOf conjuncts name ++ (value ++ slot.restOf conjuncts name value) := by
  rw [keyOf, Template.filled_segments h, textOf_completed?, frontOf, restOf]
  congr 1
  apply Template.filled_congr
  intro other hother
  rw [completed?, if_neg (Template.ne_of_mem_before hother)]

/-- If the rest is empty without the value, then it is empty with any value, or the value comes next. -/
theorem restOf_cases (hempty : slot.restOf conjuncts name "" = "") :
    (∀ value, slot.restOf conjuncts name value = "") ∨
      ∀ value, ∃ more, slot.restOf conjuncts name value = value ++ more := by
  simp only [restOf, Template.rest] at hempty ⊢
  generalize slot.template.behind name = segments at hempty ⊢
  induction segments with
  | nil => exact Or.inl fun _ => rfl
  | cons segment rest ih =>
    cases segment with
    | literal text =>
      simp only [Template.filled] at hempty ⊢
      obtain ⟨rfl, hrest⟩ := String.append_eq_empty_iff.1 hempty
      simpa only [String.empty_append] using ih hrest
    | reference other =>
      simp only [Template.filled] at hempty ⊢
      obtain ⟨hother, hrest⟩ := String.append_eq_empty_iff.1 hempty
      by_cases hname : other = name
      · subst hname
        refine Or.inr fun value => ⟨Template.filled (completed? conjuncts other (.string value)) rest, ?_⟩
        rw [textOf_completed?]
      -- Another name has the same text with every value.
      · have hsame : ∀ value, Template.textOf (completed? conjuncts name (.string value)) other = "" := by
          intro value
          rw [← hother, Template.textOf, Template.textOf, completed?, completed?, if_neg hname, if_neg hname]
        simpa only [hsame, String.empty_append] using ih hrest

/-- **Keys keep all beginnings** exactly if nothing follows the value. -/
theorem keeps_beginnings_iff (h : slot.template.refersTo name = true) :
    (∀ start value, bytes start <+: bytes value →
      bytes (slot.keyOf conjuncts name start) <+: bytes (slot.keyOf conjuncts name value)) ↔
        ∀ value, slot.restOf conjuncts name value = "" := by
  simp only [keyOf_eq h, bytes_append, List.prefix_append_right_inj]
  constructor
  · intro hall
    -- The rest of the empty value would be a beginning of texts that start differently.
    have hempty : slot.restOf conjuncts name "" = "" := by
      cases hbytes : bytes (slot.restOf conjuncts name "") with
      | nil => exact bytes_inj.1 hbytes
      | cons byte more =>
        have ha := hall "" "a" List.nil_prefix
        have hb := hall "" "b" List.nil_prefix
        rw [hbytes] at ha hb
        have ha : byte = 97 := (List.cons_prefix_cons.1 ha).1
        have hb : byte = 98 := (List.cons_prefix_cons.1 hb).1
        rw [ha] at hb
        exact absurd hb (by decide)
    rcases restOf_cases hempty with hnothing | hagain
    · exact hnothing
    -- A value that comes twice is no beginning of a longer one that comes twice.
    · have hab := hall "a" "ab" (by decide)
      obtain ⟨more, hmore⟩ := hagain "a"
      rw [hmore, bytes_append] at hab
      have hsecond := (List.cons_prefix_cons.1 (List.cons_prefix_cons.1 hab).2).1
      exact absurd hsecond (by decide)
  · intro hnothing start value hbegins
    have hnil : bytes "" = [] := rfl
    rwa [hnothing, hnothing, hnil, List.append_nil, List.append_nil]

section Tests

variable {kind : LeafKind} {operands : List String} {text : String}

/-- A test says of keys what it says of their values with the rests of the keys behind them. -/
theorem accepts_keyOf_iff (h : slot.template.refersTo name = true) :
    kind.Accepts (operands.map (slot.keyOf conjuncts name)) (slot.keyOf conjuncts name text) ↔
      kind.Accepts (operands.map fun operand => operand ++ slot.restOf conjuncts name operand)
        (text ++ slot.restOf conjuncts name text) := by
  have hkeys : operands.map (slot.keyOf conjuncts name) =
      (operands.map fun operand => operand ++ slot.restOf conjuncts name operand).map
        (slot.frontOf conjuncts name ++ ·) := by
    rw [List.map_map]
    apply List.map_congr_left
    intro operand _
    exact keyOf_eq h operand
  rw [hkeys, keyOf_eq h, accepts_append_front_iff]

/-- A test that is passed is passed by the keys if nothing follows the values, or if it is no beginning and
each operand is the value itself or diverges from it. -/
theorem accepts_keyOf (h : slot.template.refersTo name = true) (haccepts : kind.Accepts operands text)
    (hsafe : (∀ value ∈ text :: operands, slot.restOf conjuncts name value = "") ∨
      kind ≠ .beginsWith ∧ ∀ operand ∈ operands, text = operand ∨ Diverge text operand) :
    kind.Accepts (operands.map (slot.keyOf conjuncts name)) (slot.keyOf conjuncts name text) := by
  rw [accepts_keyOf_iff h]
  rcases hsafe with hnothing | ⟨hkind, hoperands⟩
  · have hsame : (operands.map fun operand => operand ++ slot.restOf conjuncts name operand) = operands := by
      have hid : ∀ operand ∈ operands, operand ++ slot.restOf conjuncts name operand = operand := by
        intro operand hmem
        rw [hnothing operand (List.mem_cons_of_mem _ hmem), String.append_empty]
      rw [List.map_congr_left hid, List.map_id']
    rwa [hsame, hnothing text List.mem_cons_self, String.append_empty]
  · exact (accepts_append_back_iff hkind hoperands _).2 haccepts

end Tests

end Slot

/-! ## Key conditions -/

/-- A string attribute passes a test whose operands are strings. -/
structure Test.HoldsFor (attributes : Dict Value) (test : Test) (text : String) (operands : List String) :
    Prop where
  /-- The attribute is the string. -/
  tested : attributes.get? test.target.name = some (.string text)
  /-- The operands are strings. -/
  stated : test.operands.map Prod.snd = operands.map .string
  /-- The string passes the test. -/
  accepts : test.kind.Accepts operands text

/-- A leaf is that of a test on a top-level attribute, which the attributes pass. -/
def Leaf.PassedBy (attributes : Dict Value) (leaf : Leaf) : Prop :=
  ∃ (test : Test) (next : Nat) (text : String) (operands : List String),
    leaf = test.leaf next ∧ test.target.path = none ∧ test.HoldsFor attributes text operands

/-- Attributes pass the leaves of a conjunction that the table answers from the order of keys. -/
def PassesRanges (conjuncts : List Condition) (attributes : Dict Value) : Prop :=
  ∀ leaf, .leaf leaf ∈ conjuncts → leaf.negated = false → leaf.kind ∈ keyKinds → leaf.PassedBy attributes

/-- A key condition asks a test of a key: its placeholders stand for keys in the place of the operands, and the
attributes of an item give the key that it is asked of. -/
structure Test.AsksKey (slots : List Slot) (attributes : Dict Value) (test : Test) (next : Nat) (slot : Slot)
    (pushed : Leaf) (keys : List String) (key : String) : Prop where
  /-- The slot is one of the schema. -/
  mem : slot ∈ slots
  /-- The key condition addresses the bare key. -/
  addresses : (Condition.leaf pushed).Addresses slot.name
  /-- The kind is that of the test. -/
  kind : pushed.kind = test.kind
  /-- The placeholders stand for the keys in order. -/
  bound : List.Forall₂ (fun entry key => pushed.values.get? entry.1 = some (.string key)) (test.bound next) keys
  /-- The attributes give the key. -/
  resolved : slot.template.resolve attributes.get? = .ok key

section Conditions

variable {planner : Planner} {condition : Condition} {conjuncts : List Condition} {plan : Plan}
  {warnings : List Warning} {attributes : Dict Value}

/-- A template that gives a key with one string for a name gives one with any other string. -/
theorem resolve_completed {slot : Slot} {name key start : String} (value : String)
    (h : slot.template.resolve (completed? conjuncts name (.string start)) = .ok key) :
    key = slot.keyOf conjuncts name start ∧
      slot.template.resolve (completed? conjuncts name (.string value)) =
        .ok (slot.keyOf conjuncts name value) := by
  obtain ⟨htexts, hkey⟩ := Template.resolve_eq_ok_iff.1 h
  refine ⟨hkey, Template.resolve_eq_ok_iff.2 ⟨fun other hother => ?_, rfl⟩⟩
  by_cases hname : other = name
  · exact ⟨value, by rw [completed?, if_pos hname]; rfl⟩
  · have htext := htexts other hother
    rw [completed?, if_neg hname] at htext
    rwa [completed?, if_neg hname]

/-- The placeholders of a test stand for the keys with its operands. -/
theorem forall₂_bound {test : Test} {next : Nat} {operands : List String} {slot : Slot} {pushed : Leaf}
    (hoperands : test.operands.map Prod.snd = operands.map .string)
    (hrewritten : (test.leaf next).RewrittenOn conjuncts test.target.name slot pushed) :
    List.Forall₂ (fun entry key => pushed.values.get? entry.1 = some (.string key)) (test.bound next)
      (operands.map (slot.keyOf conjuncts test.target.name)) := by
  have hequal : List.Forall₂ (· = ·) ((test.bound next).map Prod.snd) (operands.map .string) := by
    rw [map_snd_bound, hoperands, List.forall₂_eq_eq_eq]
  rw [List.forall₂_map_left_iff, List.forall₂_map_right_iff] at hequal
  -- Of each entry it must be known that the leaf binds it.
  have hentries := (List.forall₂_and_left (p := (· ∈ test.bound next)) _ _).2 ⟨fun _ hmem => hmem, hequal⟩
  refine List.forall₂_map_right_iff.2 (hentries.imp ?_)
  rintro ⟨placeholder, _⟩ operand ⟨hentry, rfl⟩
  obtain ⟨key, hkey, hbound⟩ := hrewritten.values placeholder _ (get?_leaf.2 hentry)
  rw [hbound, (resolve_completed operand hkey).1]

/-- Attributes that pass an equality have its value. -/
theorem Test.HoldsFor.get?_of_equality {target : Handle} {value : Value} {text : String} {operands : List String}
    (h : (Test.compare .eq target value).HoldsFor attributes text operands) :
    attributes.get? target.name = some value := by
  obtain ⟨htested, hstated, haccepts⟩ := h
  obtain ⟨operand, rfl, hvalue⟩ : ∃ operand, operands = [operand] ∧ value = .string operand := by
    rcases operands with _ | ⟨operand, _ | ⟨second, rest⟩⟩
    · cases hstated
    · exact ⟨operand, rfl, (List.cons.inj hstated).1⟩
    · cases hstated
  have hequal : text = operand := haccepts
  rw [hvalue, ← hequal]
  exact htested

/-- Attributes that pass the equalities of a conjunction have the values of these. -/
theorem satisfiesEqualities_of_passes (h : PassesRanges conjuncts attributes) :
    SatisfiesEqualities conjuncts attributes := by
  intro name value next hmem
  obtain ⟨test, next', text, operands, hleaf, hpath, hpasses⟩ :=
    h _ hmem (leaf_negated _ _) (by rw [leaf_kind]; exact List.mem_cons_self)
  -- The test of the leaf compares, so it is an equality, and its leaf gives its attribute and value.
  have hkind := congrArg Leaf.kind hleaf
  rw [leaf_kind, leaf_kind] at hkind
  cases test with
  | compare comparison target value' =>
    cases hkind
    obtain ⟨name', path⟩ := target
    obtain rfl : path = none := hpath
    obtain ⟨rfl, rfl⟩ := equality_inj (congrArg Condition.leaf hleaf)
    exact hpasses.get?_of_equality
  | _ => cases hkind

/-- **What range conditions say of keys.** Take a plan of a conjunction of tests on top-level attributes, and
attributes that are strings and pass the tests that the table answers from the order of keys. Each key
condition asks a test of the conjunction of the key that the attributes give. It says of this key and of the
keys with the operands what the test says of the values with the rests of these keys behind them. So the key
condition is passed if nothing follows the values, and also if the test is no beginning and each operand is
the value itself or diverges from it. The keys of a slot keep all beginnings exactly if nothing follows. -/
theorem key_conditions_hold (htop : condition.LeavesFrom Leaf.IsTopLevel)
    (hgroup : condition.conjunction? = some conjuncts)
    (hplan : planner.plan condition = .ok (plan, warnings))
    (hpasses : PassesRanges conjuncts attributes) {pushed : Leaf} (hpushed : .leaf pushed ∈ plan.keyConditions) :
    ∃ (test : Test) (next : Nat) (slot : Slot) (text : String) (operands : List String),
      .leaf (test.leaf next) ∈ conjuncts ∧ test.HoldsFor attributes text operands ∧
      test.AsksKey planner.slots attributes next slot pushed
        (operands.map (slot.keyOf conjuncts test.target.name)) (slot.keyOf conjuncts test.target.name text) ∧
      (test.kind.Accepts (operands.map (slot.keyOf conjuncts test.target.name))
          (slot.keyOf conjuncts test.target.name text) ↔
        test.kind.Accepts (operands.map fun operand => operand ++ slot.restOf conjuncts test.target.name operand)
          (text ++ slot.restOf conjuncts test.target.name text)) ∧
      ((∀ value ∈ text :: operands, slot.restOf conjuncts test.target.name value = "") ∨
          test.kind ≠ .beginsWith ∧ (∀ operand ∈ operands, text = operand ∨ Diverge text operand) →
        test.kind.Accepts (operands.map (slot.keyOf conjuncts test.target.name))
          (slot.keyOf conjuncts test.target.name text)) ∧
      ((∀ start value, bytes start <+: bytes value →
          bytes (slot.keyOf conjuncts test.target.name start) <+:
            bytes (slot.keyOf conjuncts test.target.name value)) ↔
        ∀ value, slot.restOf conjuncts test.target.name value = "") := by
  have htop := isTopLevel_of_leavesFrom htop hgroup
  obtain ⟨leaf, name, slot, hmem, hgoes, hrewritten⟩ :=
    Planner.exists_leaf_of_keyCondition hgroup hplan hpushed
  -- The leaf is that of a test which the attributes pass.
  obtain ⟨test, next, text, operands, rfl, hpath, hholds⟩ := hpasses leaf hmem hgoes.positive hgoes.kind
  obtain rfl := attribute?_leaf hpath hgoes.tested
  have hgoes := goesTo_leaf_iff.1 hgoes
  have hrefers : slot.template.refersTo test.target.name = true :=
    List.find?_some (p := fun slot : Slot => slot.template.refersTo test.target.name) hgoes.first
  have hbound := forall₂_bound hholds.stated hrewritten
  have hmade := hrewritten.madeOn hgoes
  -- The template has given a key for an operand, so it gives one for the attribute.
  have hresolved : slot.template.resolve (completed? conjuncts test.target.name (.string text)) =
      .ok (slot.keyOf conjuncts test.target.name text) := by
    obtain ⟨operand, hoperand⟩ := hholds.accepts.exists_operand
    have hvalue : Value.string operand ∈ (test.bound next).map Prod.snd := by
      rw [map_snd_bound, hholds.stated]
      exact List.mem_map_of_mem hoperand
    obtain ⟨⟨placeholder, value⟩, hentry, rfl⟩ := List.mem_map.1 hvalue
    obtain ⟨key, hkey, -⟩ := hrewritten.values placeholder (.string operand) (get?_leaf.2 hentry)
    exact (resolve_completed text hkey).2
  have hkey : slot.template.resolve attributes.get? = .ok (slot.keyOf conjuncts test.target.name text) :=
    resolve_attributes htop (satisfiesEqualities_of_passes hpasses) hholds.tested hresolved
  have hslot : slot ∈ planner.slots := List.mem_of_find?_eq_some hgoes.first
  exact ⟨test, next, slot, text, operands, hmem, hholds,
    ⟨hslot, hmade.addresses hpath, hmade.kind, hbound, hkey⟩, Slot.accepts_keyOf_iff hrefers,
    Slot.accepts_keyOf hrefers hholds.accepts, Slot.keeps_beginnings_iff hrefers⟩

end Conditions

/-! ### Posts in order of time -/

/-- Posts of users, in order of time. -/
def posts : Model where
  name := "Post"
  table := "app"
  key := [⟨"PK", "USER#${user}"⟩, ⟨"SK", "${time}#${user}"⟩]

/-- The test for the user of a post. -/
def annPosted : Test := .compare .eq ⟨"user", none⟩ (.string "ann")

/-- The test for a range of days. -/
def postedInMay : Test := .between ⟨"time", none⟩ (.string "2024-05-01") (.string "2024-05-31")

/-- The test for a year by the beginning of the time. -/
def postedIn2024 : Test := .beginsWith ⟨"time", none⟩ (.string "2024")

/-- A post of the user in May. -/
def mayPost : Dict Value := .ofList [("user", .string "ann"), ("time", .string "2024-05-10")]

theorem annPosted_holds : annPosted.HoldsFor mayPost "ann" ["ann"] :=
  ⟨by decide, rfl, rfl⟩

theorem postedInMay_holds : postedInMay.HoldsFor mayPost "2024-05-10" ["2024-05-01", "2024-05-31"] :=
  ⟨by decide, rfl, by decide +kernel⟩

theorem postedIn2024_holds : postedIn2024.HoldsFor mayPost "2024-05-10" ["2024"] :=
  ⟨by decide, rfl, by decide +kernel⟩

/-- The tests for the posts of the user in May. -/
def mayTests : List Condition := [.leaf (postedInMay.leaf 0), .leaf (annPosted.leaf 2)]

/-- A leaf of these tests that tests a range is that of the days. -/
theorem eq_of_mem_mayTests {test : Test} {next : Nat} (hmem : .leaf (test.leaf next) ∈ mayTests)
    (hkind : test.kind = .between) : test.leaf next = postedInMay.leaf 0 := by
  rcases List.mem_cons.1 hmem with heq | hmem
  · exact Condition.leaf.inj heq
  · have heq := congrArg Leaf.kind (Condition.leaf.inj (List.mem_singleton.1 hmem))
    rw [leaf_kind, leaf_kind, hkind] at heq
    cases heq

/-- The post passes the tests. -/
theorem mayPost_passes : PassesRanges mayTests mayPost := by
  intro leaf hleaf _ _
  simp only [mayTests, List.mem_cons, List.not_mem_nil, or_false, Condition.leaf.injEq] at hleaf
  obtain rfl | rfl := hleaf
  · exact ⟨_, 0, _, _, rfl, rfl, postedInMay_holds⟩
  · exact ⟨_, 2, _, _, rfl, rfl, annPosted_holds⟩

/-- No string of the post is a beginning of the first or the last day, and neither of them one of the string. -/
theorem diverge_of_mayPost {name text operand : String} (htext : mayPost.get? name = some (.string text))
    (hoperand : .string operand ∈ postedInMay.operands.map Prod.snd) : Diverge text operand := by
  have htext : text = "2024-05-10" ∨ text = "ann" := by
    have hentries : mayPost.entries = [("time", .string "2024-05-10"), ("user", .string "ann")] := by decide
    have hmem := mayPost.mem_entries_iff.2 htext
    rw [hentries] at hmem
    simp only [List.mem_cons, Prod.mk.injEq, Value.string.injEq, List.not_mem_nil, or_false] at hmem
    exact hmem.imp And.right And.right
  have hoperand : operand = "2024-05-01" ∨ operand = "2024-05-31" := by
    simpa [postedInMay, Test.operands] using hoperand
  rcases htext with rfl | rfl <;> rcases hoperand with rfl | rfl <;> decide +kernel

/-- The tests are made of the leaves of tests on top-level attributes. -/
theorem mayTests_topLevel : (Condition.all mayTests).LeavesFrom Leaf.IsTopLevel := by
  apply Condition.Built.leavesFrom
  refine .all fun conjunct hconjunct => ?_
  simp only [mayTests, List.mem_cons, List.not_mem_nil, or_false] at hconjunct
  obtain rfl | rfl := hconjunct
  · exact .leaf ⟨_, 0, rfl, rfl⟩
  · exact .leaf ⟨_, 2, rfl, rfl⟩

/-- A post passes the key condition of a range of days, since the days are as long as its own. -/
theorem key_conditions_hold_posts :
    ∃ (plan : Plan) (pushed : Leaf), (Planner.ofModel posts).plan (.all mayTests) = .ok (plan, []) ∧
      .leaf pushed ∈ plan.keyConditions ∧ pushed.text = "#SK BETWEEN :time_low_0 AND :time_high_1" ∧
      ∃ (test : Test) (next : Nat) (slot : Slot) (keys : List String) (key : String),
        .leaf (test.leaf next) ∈ mayTests ∧
        test.AsksKey (Planner.ofModel posts).slots mayPost next slot pushed keys key ∧
        test.kind.Accepts keys key := by
  have hplan : ((Planner.ofModel posts).plan (.all mayTests)).toOption.map
      (fun split => (split.2, split.1.keyConditions.head?)) =
        some ([], some (.leaf ⟨"#SK BETWEEN :time_low_0 AND :time_high_1", .singleton "#SK" "SK",
          .ofList [(":time_low_0", .string "2024-05-01#ann"), (":time_high_1", .string "2024-05-31#ann")],
          false, .between⟩)) := by decide +kernel
  obtain ⟨⟨plan, warnings⟩, hplan, hsplit⟩ := exists_ok_of_map_toOption hplan
  obtain ⟨rfl, hhead⟩ := Prod.mk.inj hsplit
  have hmember := List.mem_of_head? hhead
  obtain ⟨test, next, slot, text, operands, hmem, hholds, hasks, -, hsafe, -⟩ :=
    key_conditions_hold mayTests_topLevel rfl hplan mayPost_passes hmember
  have hkind : test.kind = .between := hasks.kind.symm
  refine ⟨plan, _, hplan, hmember, rfl, test, next, slot, _, _, hmem, hasks, hsafe (Or.inr ⟨?_, ?_⟩)⟩
  · rw [hkind]
    decide
  · intro operand hoperand
    have hvalue : .string operand ∈ test.operands.map Prod.snd := by
      rw [hholds.stated]
      exact List.mem_map_of_mem hoperand
    have hday := mem_operands_of_leaf_eq (eq_of_mem_mayTests hmem hkind) hvalue
    exact Or.inr (diverge_of_mayPost hholds.tested hday)

/-- A beginning of the time is no beginning of a key in which the user follows the time, so the key condition
of the year rejects a post of the year. -/
theorem range_conditions_lose_items :
    ¬ ∀ (planner : Planner) (tests : List (Test × Nat)) (attributes : Dict Value) (plan : Plan)
      (warnings : List Warning),
      (∀ entry ∈ tests, entry.1.target.path = none ∧
        ∃ text operands, entry.1.HoldsFor attributes text operands) →
      planner.plan (.all (tests.map fun entry => .leaf (entry.1.leaf entry.2))) = .ok (plan, warnings) →
        ∀ entry ∈ tests, ∀ (slot : Slot) (pushed : Leaf) (keys : List String) (key : String),
          .leaf pushed ∈ plan.keyConditions →
            entry.1.AsksKey planner.slots attributes entry.2 slot pushed keys key →
              entry.1.kind.Accepts keys key := by
  intro hall
  have hplan : ((Planner.ofModel posts).plan (.all [.leaf (postedIn2024.leaf 0),
      .leaf (annPosted.leaf 1)])).toOption.map (fun split => split.1.keyConditions.head?) =
        some (some (.leaf ⟨"begins_with(#SK, :time_0)", .singleton "#SK" "SK",
          .singleton ":time_0" (.string "2024#ann"), false, .beginsWith⟩)) := by decide +kernel
  obtain ⟨⟨plan, warnings⟩, hplan, hhead⟩ := exists_ok_of_map_toOption hplan
  have htests : ∀ entry ∈ [(postedIn2024, 0), (annPosted, 1)], entry.1.target.path = none ∧
      ∃ text operands, entry.1.HoldsFor mayPost text operands := by
    intro entry hentry
    rcases List.mem_cons.1 hentry with rfl | hentry
    · exact ⟨rfl, _, _, postedIn2024_holds⟩
    · obtain rfl := List.mem_singleton.1 hentry
      exact ⟨rfl, _, _, annPosted_holds⟩
  have hasks : postedIn2024.AsksKey (Planner.ofModel posts).slots mayPost 0
      (.ofDefinition ⟨"SK", "${time}#${user}"⟩)
      ⟨"begins_with(#SK, :time_0)", .singleton "#SK" "SK", .singleton ":time_0" (.string "2024#ann"), false,
        .beginsWith⟩ ["2024#ann"] "2024-05-10#ann" := by
    refine ⟨List.mem_cons_of_mem _ List.mem_cons_self, ?_, rfl, ?_, eq_ok_of_toOption (by decide +kernel)⟩
    · exact ⟨_, postedIn2024, [":time_0"], rfl, rfl, by decide +kernel, rfl⟩
    · exact .cons (by decide +kernel) .nil
  have haccepts := hall _ _ _ _ _ htests hplan _ List.mem_cons_self _ _ _ _ (List.mem_of_head? hhead) hasks
  revert haccepts
  decide +kernel

end SingleTable
