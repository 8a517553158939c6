import SingleTable.Proofs.Request.Drafts

/-!
# One operator builder

Everything that is made with one operator builder: conditions by its operators, and changes by updates that
start empty or go on from changes that were kept, in any order (`Builder.run`). All of them take the numbers of
their placeholders from the counter of the builder.

The tests that become conditions and the actions that the updates keep are those of the calls
(`Builder.made_run`, `Builder.kept_run`). The placeholders that are minted carry the numbers that follow each
other from the first one on (`Builder.Consecutive`), and the number of a placeholder can be read off its end. So
no placeholder is minted twice, whatever the attributes are called, there is one for each value, no map of a leaf
or of some changes loses an entry to a placeholder that it has already, and the counter tells how many values
were bound (`Builder.placeholders_minted_once`).
-/

set_option autoImplicit false

namespace SingleTable

/-! ## Consecutive numbers -/

/-- Placeholders carry the numbers from a first one on. -/
def AreNumbered (first : Nat) (tokens : List String) : Prop :=
  ∀ i token, tokens[i]? = some token → ∃ name role, token = valuePlaceholder name role (first + i)

namespace AreNumbered

variable {first : Nat} {front back tokens : List String}

theorem nil (first : Nat) : AreNumbered first [] := by
  intro i token h
  simp at h

theorem singleton (name role : String) (first : Nat) :
    AreNumbered first [valuePlaceholder name role first] := by
  intro i token h
  obtain ⟨rfl, rfl⟩ : i = 0 ∧ valuePlaceholder name role first = token := by
    cases i with
    | zero => simpa using h
    | succ i => simp at h
  exact ⟨name, role, rfl⟩

/-- Placeholders that go on with the next number. -/
theorem append (h : AreNumbered first front) (h' : AreNumbered (first + front.length) back) :
    AreNumbered first (front ++ back) := by
  intro i token htoken
  by_cases hi : i < front.length
  · rw [List.getElem?_append_left hi] at htoken
    exact h i token htoken
  · rw [List.getElem?_append_right (Nat.le_of_not_lt hi)] at htoken
    obtain ⟨name, role, heq⟩ := h' _ token htoken
    refine ⟨name, role, ?_⟩
    rw [heq]
    congr 1
    omega

/-- Placeholders with consecutive numbers are different from each other. -/
theorem nodup (h : AreNumbered first tokens) : tokens.Nodup := by
  apply List.pairwise_iff_getElem.2
  intro i j hi hj hij heq
  obtain ⟨name, role, hname⟩ := h i tokens[i] (List.getElem?_eq_getElem hi)
  obtain ⟨name', role', hname'⟩ := h j tokens[j] (List.getElem?_eq_getElem hj)
  have hnumber := valuePlaceholder_number (hname.symm.trans (heq.trans hname'))
  omega

end AreNumbered

/-! ## Placeholders of a test -/

/-- The placeholders of a test carry the next numbers. -/
theorem areNumbered_bound (test : Test) (next : Nat) :
    AreNumbered next ((test.bound next).map Prod.fst) := by
  intro i token h
  rw [Test.bound, List.getElem?_map, List.getElem?_mapIdx] at h
  obtain ⟨entry, hentry, rfl⟩ := Option.map_eq_some_iff.1 h
  obtain ⟨operand, -, rfl⟩ := Option.map_eq_some_iff.1 hentry
  exact ⟨_, _, rfl⟩

/-! ## Placeholders of changes -/

/-- The actions of some changes, without the numbers that they got. -/
def ChangeSet.actions (changes : ChangeSet) : List Action := changes.entries.map RecordedAction.action

/-- The values of recorded actions under their placeholders. -/
def boundBy (entries : List RecordedAction) : List (String × Value) := entries.flatMap RecordedAction.bound

/-- The values of actions, without the actions that have none. -/
def Action.values (actions : List Action) : List Value := actions.filterMap Action.value?

theorem arity_eq (action : Action) : action.arity = action.value?.toList.length := by
  rw [Action.arity]
  cases action.value? with
  | none => rfl
  | some value => rfl

theorem map_snd_boundBy (entries : List RecordedAction) :
    (boundBy entries).map Prod.snd = Action.values (entries.map RecordedAction.action) := by
  induction entries with
  | nil => rfl
  | cons entry rest ih =>
    rw [boundBy, List.flatMap_cons, List.map_append, ← boundBy, ih, List.map_cons, Action.values,
      Action.values, RecordedAction.bound]
    cases hvalue : entry.action.value? with
    | none => rw [List.filterMap_cons_none hvalue]; rfl
    | some value => rw [List.filterMap_cons_some hvalue]; rfl

theorem map_action_numbered (next : Nat) (actions : List Action) :
    (numbered next actions).map RecordedAction.action = actions := by
  induction actions generalizing next with
  | nil => rfl
  | cons action rest ih => rw [numbered, List.map_cons, ih]

/-- The counter advances by the number of values. -/
theorem numberAfter_eq (next : Nat) (actions : List Action) :
    numberAfter next actions = next + (Action.values actions).length := by
  induction actions generalizing next with
  | nil => rfl
  | cons action rest ih =>
    rw [numberAfter, ih, arity_eq, Action.values, Action.values]
    cases hvalue : action.value? with
    | none => simp [List.filterMap_cons_none hvalue]
    | some value =>
      simp [List.filterMap_cons_some hvalue]
      omega

/-- The placeholders of recorded actions carry the next numbers. -/
theorem areNumbered_boundBy (next : Nat) (actions : List Action) :
    AreNumbered next ((boundBy (numbered next actions)).map Prod.fst) := by
  induction actions generalizing next with
  | nil => exact AreNumbered.nil next
  | cons action rest ih =>
    rw [numbered, boundBy, List.flatMap_cons, List.map_append, ← boundBy]
    have hfirst : AreNumbered next ((RecordedAction.bound ⟨action, next⟩).map Prod.fst) ∧
        ((RecordedAction.bound ⟨action, next⟩).map Prod.fst).length = action.arity := by
      rw [RecordedAction.bound, arity_eq]
      cases action.value? with
      | none => exact ⟨AreNumbered.nil next, rfl⟩
      | some value => exact ⟨AreNumbered.singleton _ _ next, rfl⟩
    apply hfirst.1.append
    rw [hfirst.2]
    exact ih _

/-! ## Calls -/

/-- A use of an operator builder. -/
inductive BuilderCall where
  /-- An operator makes a test a condition. -/
  | operator (test : Test)
  /-- A new update records actions. -/
  | update (actions : List Action)
  /-- An update goes on from the changes that an earlier one kept, and records more actions. -/
  | resume (earlier : Nat) (actions : List Action)

/-- The values that a call binds. -/
def BuilderCall.values : BuilderCall → List Value
  | operator test => test.operands.map Prod.snd
  | update actions => Action.values actions
  | resume _ actions => Action.values actions

/-- The test that a call makes a condition. -/
def BuilderCall.test? : BuilderCall → Option Test
  | operator test => some test
  | update _ => none
  | resume _ _ => none

/-- What the updates keep with a call, from what they kept before it: an update keeps its actions behind those
that it goes on from. -/
def BuilderCall.keep (kept : List (List Action)) : BuilderCall → List (List Action)
  | operator _ => kept
  | update actions => kept ++ [actions]
  | resume earlier actions => kept ++ [kept[earlier]?.getD [] ++ actions]

/-- The actions that each update of some calls keeps. -/
def keptActions (calls : List BuilderCall) : List (List Action) := calls.foldl BuilderCall.keep []

/-- An operator builder with what was made with it. -/
structure Builder where
  /-- The number of the next placeholder. -/
  next : Nat
  /-- The tests with the conditions that they became. -/
  made : List (Test × Condition) := []
  /-- The changes that the updates kept. -/
  kept : List ChangeSet := []
  /-- All placeholders in the order in which they were minted. -/
  minted : List String := []

namespace Builder

/-- Makes a test a condition. -/
def operator (builder : Builder) (test : Test) : Builder :=
  let (condition, next) := test.build.run builder.next
  { builder with
    next
    made := builder.made ++ [(test, condition)]
    minted := builder.minted ++ (test.bound builder.next).map Prod.fst }

/-- Records actions behind those of some changes, and keeps the changes. -/
def record (builder : Builder) (start : ChangeSet) (actions : List Action) : Builder :=
  let (changes, next) := (start.recordAll actions).run builder.next
  { builder with
    next
    kept := builder.kept ++ [changes]
    minted := builder.minted ++ (boundBy (changes.entries.drop start.entries.length)).map Prod.fst }

/-- The builder after a call. An update cannot go on from changes that nobody kept, so it starts empty. -/
def step (builder : Builder) : BuilderCall → Builder
  | .operator test => builder.operator test
  | .update actions => builder.record {} actions
  | .resume earlier actions => builder.record (builder.kept[earlier]?.getD {}) actions

/-- The builder after calls. -/
def run (builder : Builder) (calls : List BuilderCall) : Builder := calls.foldl step builder

variable {first : Nat} {builder : Builder}

/-- What holds of a builder whose counter started with a first number. -/
structure Consecutive (first : Nat) (builder : Builder) : Prop where
  /-- The placeholders carry consecutive numbers. -/
  minted : AreNumbered first builder.minted
  /-- The counter has advanced by one for each placeholder. -/
  next : builder.next = first + builder.minted.length
  /-- A condition is a leaf that binds each value of its test once, to a placeholder that was minted. -/
  made : ∀ entry ∈ builder.made, ∃ leaf : Leaf, entry.2 = .leaf leaf ∧
    leaf.values.values.Perm (entry.1.operands.map Prod.snd) ∧ leaf.values.names ⊆ builder.minted
  /-- Changes bind placeholders that were minted, no occurrence twice. -/
  kept : ∀ changes ∈ builder.kept,
    ((boundBy changes.entries).map Prod.fst).Sublist builder.minted

/-- A new builder has minted nothing. -/
theorem Consecutive.new (first : Nat) : Consecutive first { next := first } :=
  ⟨AreNumbered.nil first, rfl, by simp, by simp⟩

/-- An operator mints the next numbers. -/
theorem Consecutive.operator (h : Consecutive first builder) (test : Test) :
    Consecutive first (builder.operator test) := by
  constructor
  · apply h.minted.append
    rw [← h.next]
    exact areNumbered_bound test builder.next
  · show builder.next + test.arity = first + (builder.minted ++ (test.bound builder.next).map Prod.fst).length
    rw [h.next, List.length_append, List.length_map, length_bound, Test.arity, Nat.add_assoc]
  · intro entry hentry
    rcases List.mem_append.1 hentry with hold | hnew
    · obtain ⟨leaf, heq, hvalues, hnames⟩ := h.made entry hold
      exact ⟨leaf, heq, hvalues, List.Subset.trans hnames (List.subset_append_left _ _)⟩
    · obtain rfl := List.mem_singleton.1 hnew
      have hentries := entries_leaf_perm test builder.next
      refine ⟨test.leaf builder.next, rfl, ?_, ?_⟩
      · rw [← map_snd_bound test builder.next]
        exact hentries.map Prod.snd
      · exact List.Subset.trans (hentries.map Prod.fst).subset (List.subset_append_right _ _)
  · intro changes hchanges
    exact (h.kept changes hchanges).trans (List.sublist_append_left _ _)

/-- What recording actions does to a builder. -/
theorem record_eq (builder : Builder) (start : ChangeSet) (actions : List Action) :
    builder.record start actions =
      { builder with
        next := builder.next + (Action.values actions).length
        kept := builder.kept ++ [⟨start.entries ++ numbered builder.next actions⟩]
        minted := builder.minted ++ (boundBy (numbered builder.next actions)).map Prod.fst } := by
  rw [record, run_recordAll, numberAfter_eq]
  dsimp only
  rw [List.drop_left]

/-- Actions mint the next numbers, and the changes of an earlier update keep their placeholders. -/
theorem Consecutive.record (h : Consecutive first builder) {start : ChangeSet}
    (hstart : ((boundBy start.entries).map Prod.fst).Sublist builder.minted) (actions : List Action) :
    Consecutive first (builder.record start actions) := by
  have hlength : ((boundBy (numbered builder.next actions)).map Prod.fst).length =
      (Action.values actions).length := by
    have hvalues := congrArg List.length (map_snd_boundBy (numbered builder.next actions))
    rw [map_action_numbered, List.length_map] at hvalues
    rw [List.length_map, hvalues]
  rw [record_eq]
  constructor
  · apply h.minted.append
    rw [← h.next]
    exact areNumbered_boundBy builder.next actions
  · dsimp only
    rw [List.length_append, hlength, h.next, Nat.add_assoc]
  · intro entry hentry
    obtain ⟨leaf, heq, hvalues, hnames⟩ := h.made entry hentry
    exact ⟨leaf, heq, hvalues, List.Subset.trans hnames (List.subset_append_left _ _)⟩
  · intro changes hchanges
    rcases List.mem_append.1 hchanges with hold | hnew
    · exact (h.kept changes hold).trans (List.sublist_append_left _ _)
    · obtain rfl := List.mem_singleton.1 hnew
      rw [boundBy, List.flatMap_append, List.map_append]
      exact hstart.append (List.Sublist.refl _)

/-- Every call mints the next numbers. -/
theorem Consecutive.step (h : Consecutive first builder) (call : BuilderCall) :
    Consecutive first (builder.step call) := by
  have hempty : ((boundBy ({} : ChangeSet).entries).map Prod.fst).Sublist builder.minted :=
    List.nil_sublist _
  cases call with
  | operator test => exact h.operator test
  | update actions => exact h.record hempty actions
  | resume earlier actions =>
    apply h.record
    cases hearlier : builder.kept[earlier]? with
    | none => exact hempty
    | some changes => exact h.kept changes (List.mem_of_getElem? hearlier)

theorem Consecutive.run (h : Consecutive first builder) (calls : List BuilderCall) :
    Consecutive first (builder.run calls) := by
  induction calls generalizing builder with
  | nil => exact h
  | cons call rest ih => exact ih (h.step call)

/-! ## Runs -/

/-- A call makes its test a condition. -/
theorem made_step (builder : Builder) (call : BuilderCall) :
    (builder.step call).made.map Prod.fst = builder.made.map Prod.fst ++ call.test?.toList := by
  cases call with
  | operator test =>
    show (builder.made ++ [_]).map Prod.fst = _
    rw [List.map_append]
    rfl
  | update actions => rw [step, record_eq, BuilderCall.test?, Option.toList_none, List.append_nil]
  | resume earlier actions => rw [step, record_eq, BuilderCall.test?, Option.toList_none, List.append_nil]

/-- The conditions of a run are made from the tests of its calls. -/
theorem made_run (builder : Builder) (calls : List BuilderCall) :
    (builder.run calls).made.map Prod.fst =
      builder.made.map Prod.fst ++ calls.filterMap BuilderCall.test? := by
  induction calls generalizing builder with
  | nil => exact (List.append_nil _).symm
  | cons call rest ih =>
    have htests : (call :: rest).filterMap BuilderCall.test? =
        call.test?.toList ++ rest.filterMap BuilderCall.test? := by
      cases htest : call.test? with
      | none => rw [List.filterMap_cons_none htest]; rfl
      | some test => rw [List.filterMap_cons_some htest]; rfl
    rw [run, List.foldl_cons, ← run, ih, made_step, htests, List.append_assoc]

/-- An update keeps its actions behind those that it goes on from. -/
theorem kept_record (builder : Builder) (start : ChangeSet) (actions : List Action) :
    (builder.record start actions).kept.map ChangeSet.actions =
      builder.kept.map ChangeSet.actions ++ [start.actions ++ actions] := by
  rw [record_eq]
  dsimp only
  rw [List.map_append, List.map_singleton, ChangeSet.actions, List.map_append, map_action_numbered,
    ChangeSet.actions]

theorem kept_step (builder : Builder) (call : BuilderCall) :
    (builder.step call).kept.map ChangeSet.actions = call.keep (builder.kept.map ChangeSet.actions) := by
  cases call with
  | operator test => rfl
  | update actions => exact kept_record builder {} actions
  | resume earlier actions =>
    rw [step, kept_record, BuilderCall.keep, List.getElem?_map]
    -- Changes that nobody kept are as good as none.
    cases builder.kept[earlier]? with
    | none => rfl
    | some changes => rfl

/-- The updates of a run keep the actions of its calls. -/
theorem kept_run (builder : Builder) (calls : List BuilderCall) :
    (builder.run calls).kept.map ChangeSet.actions =
      calls.foldl BuilderCall.keep (builder.kept.map ChangeSet.actions) := by
  induction calls generalizing builder with
  | nil => rfl
  | cons call rest ih => rw [run, List.foldl_cons, ← run, ih, kept_step, List.foldl_cons]

/-- A call advances the counter by the number of its values. -/
theorem next_step (builder : Builder) (call : BuilderCall) :
    (builder.step call).next = builder.next + call.values.length := by
  cases call with
  | operator test =>
    show builder.next + test.arity = _
    rw [Test.arity, BuilderCall.values, List.length_map]
  | update actions => rw [step, record_eq, BuilderCall.values]
  | resume earlier actions => rw [step, record_eq, BuilderCall.values]

theorem next_run (builder : Builder) (calls : List BuilderCall) :
    (builder.run calls).next = builder.next + (calls.flatMap BuilderCall.values).length := by
  induction calls generalizing builder with
  | nil => rfl
  | cons call rest ih =>
    rw [run, List.foldl_cons, ← run, ih, next_step, List.flatMap_cons, List.length_append, Nat.add_assoc]

/-- **Placeholders are minted once.** Let an operator builder make any conditions and record any actions, in
new updates or in resumed ones, on attributes of any names. All placeholders that are minted are different from
each other, and there is one for each value. The tests of the calls become conditions, and the map of each leaf
has one entry for each value of its test. The actions of the calls are kept, and the map of all kept changes has
one entry for each of their actions with a value. All placeholders in these maps are among those that were
minted. The counter has advanced by the number of values. -/
theorem placeholders_minted_once (first : Nat) (calls : List BuilderCall) :
    (run { next := first } calls).minted.Nodup ∧
    (run { next := first } calls).minted.length = (calls.flatMap BuilderCall.values).length ∧
    (run { next := first } calls).made.map Prod.fst = calls.filterMap BuilderCall.test? ∧
    (∀ entry ∈ (run { next := first } calls).made, ∃ leaf : Leaf, entry.2 = .leaf leaf ∧
      leaf.values.values.Perm (entry.1.operands.map Prod.snd) ∧
      leaf.values.names ⊆ (run { next := first } calls).minted) ∧
    (run { next := first } calls).kept.map ChangeSet.actions = keptActions calls ∧
    (∀ changes ∈ (run { next := first } calls).kept,
      changes.compile.values.values.Perm (Action.values changes.actions) ∧
      changes.compile.values.names ⊆ (run { next := first } calls).minted) ∧
    (run { next := first } calls).next = first + (calls.flatMap BuilderCall.values).length := by
  have hrun := (Consecutive.new first).run calls
  have hnext := next_run { next := first } calls
  have hlength := Nat.add_left_cancel (hrun.next.symm.trans hnext)
  refine ⟨hrun.minted.nodup, hlength, made_run _ calls, hrun.made, kept_run _ calls, ?_, hnext⟩
  intro changes hchanges
  have hsublist := hrun.kept changes hchanges
  have hentries : changes.compile.values.entries.Perm (boundBy changes.entries) :=
    Dict.entries_ofList_perm (hsublist.nodup hrun.minted.nodup)
  constructor
  · rw [ChangeSet.actions, ← map_snd_boundBy]
    exact hentries.map Prod.snd
  · exact List.Subset.trans (hentries.map Prod.fst).subset hsublist.subset

/-- Names that look like parts of a placeholder, and changes that are resumed twice. -/
example :
    (run { next := 0 }
      [.operator (.between ⟨"a", none⟩ (.ofInt 1) (.ofInt 5)),
        .operator (.compare .eq ⟨"a_low", none⟩ (.ofInt 1)),
        .update [.set ⟨"", none⟩ (.ofInt 7), .remove ⟨"a", none⟩],
        .operator (.oneOf ⟨"a_1", none⟩ [.ofInt 7, .ofInt 7]),
        .resume 0 [.increment ⟨"a", none⟩ (.ofInt 1)],
        .resume 0 [.increment ⟨"a", none⟩ (.ofInt 1)]]).minted =
      [":a_low_0", ":a_high_1", ":a_low_2", ":_3", ":a_1_in0_4", ":a_1_in1_5", ":a_6", ":a_7"] := by
  decide +kernel

end Builder

end SingleTable
