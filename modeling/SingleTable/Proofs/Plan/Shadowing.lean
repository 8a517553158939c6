import Mathlib.Data.List.Sigma
import SingleTable.Proofs.Plan.Routing

/-!
# Reports about shadowed keys

A slot is shadowed if no leaf went to it although leaves that went elsewhere feed its template and the
equalities of the conjunction determine its key (`Shadowed`). The lenient policy reports every shadowed slot
once, under the first leaf that feeds it (`Reported`). The strict policy fails on the first of these reports
and makes the same plan if there is none (`Planner.policies_differ_in_reports`).

The reports are made by a loop over the leaves, which sets aside what was reported before. The invariant of
the loop is `Reported` itself, for the slots that were not set aside and the leaves that are still to come.
-/

set_option autoImplicit false

namespace SingleTable

/-! ## What there is to report -/

/-- The leaf of a conjunct that goes to a key. -/
def Condition.pushed? (slots : List Slot) : Condition → Option Leaf
  | .leaf test => if (Condition.leaf test).isPushable slots then some test else none
  | .group _ _ _ => none

/-- The leaves of a conjunction that go to keys, in order. -/
def pushedLeaves (slots : List Slot) (conjuncts : List Condition) : List Leaf :=
  conjuncts.filterMap (Condition.pushed? slots)

/-- Whether the template of a slot refers to the attribute of a leaf. -/
def Leaf.feeds (leaf : Leaf) (slot : Slot) : Bool := leaf.attribute?.any slot.template.refersTo

/-- The position of the first slot that a leaf feeds. -/
def Leaf.firstPosition? (leaf : Leaf) (slots : List Slot) : Option Nat := slots.findIdx? leaf.feeds

/-- A slot with its position is shadowed by the leaves of a conjunction. -/
structure Shadowed (slots : List Slot) (conjuncts : List Condition) (slot : Slot) (position : Nat) :
    Prop where
  /-- The slot is declared at the position. -/
  declared : slots[position]? = some slot
  /-- No leaf goes to the slot. -/
  unconstrained : ∀ leaf ∈ pushedLeaves slots conjuncts, leaf.firstPosition? slots ≠ some position
  /-- A leaf that goes to a key feeds the slot. -/
  fed : ∃ leaf ∈ pushedLeaves slots conjuncts, leaf.feeds slot = true
  /-- The equalities of the conjunction give a value to every reference of the template. -/
  determined : ∀ name ∈ slot.template.references, ∃ value, pinned? conjuncts name = some value

/-- A report: slots with their positions, under a leaf that went to a key. -/
structure Report where
  /-- The leaf. -/
  leaf : Leaf
  /-- The attribute of the leaf. -/
  attributeName : String
  /-- The slot that the leaf went to. -/
  chosen : Slot
  /-- The slots that are reported. -/
  slots : List (Slot × Nat)

namespace Report

/-- The names in a report. -/
def shadow (report : Report) : Shadow :=
  ⟨report.attributeName, report.chosen.name, report.slots.map (·.1.name)⟩

/-- The warning of a report. -/
def warning (model : String) (report : Report) : Warning :=
  .shadowedKeys model report.shadow.attributeName report.shadow.chosen report.shadow.shadowed

end Report

/-- Reports are exact for slots of which it is said whether they are to be reported, under the given
leaves. -/
structure Reported (slots : List Slot) (isDue : Slot → Nat → Prop) (leaves : List Leaf)
    (reports : List Report) : Prop where
  /-- Every report names the attribute of its leaf and the key that the leaf went to. -/
  chosen : ∀ report ∈ reports, report.leaf.GoesTo slots report.attributeName report.chosen
  /-- The reports stand in the order of their leaves. -/
  inOrder : (reports.map Report.leaf).Sublist leaves
  /-- No report is empty. -/
  nonempty : ∀ report ∈ reports, report.slots ≠ []
  /-- A report lists its slots in order of declaration. -/
  declared : ∀ report ∈ reports, report.slots.Sublist slots.zipIdx
  /-- A slot is reported under the first leaf that feeds it. -/
  first : ∀ report ∈ reports, ∀ entry ∈ report.slots,
    leaves.find? (·.feeds entry.1) = some report.leaf
  /-- No slot is reported twice. -/
  once : (reports.flatMap Report.slots).Nodup
  /-- Exactly the slots are reported that are to be. -/
  complete : ∀ slot position, (slot, position) ∈ reports.flatMap Report.slots ↔ isDue slot position

section Reports

variable {slots : List Slot} {isDue : Slot → Nat → Prop} {leaves : List Leaf} {reports : List Report}

/-- No reports are exact if there is nothing to report. -/
theorem Reported.nil (h : ∀ slot position, ¬ isDue slot position) : Reported slots isDue leaves [] where
  chosen := fun _ hreport => nomatch hreport
  inOrder := List.nil_sublist leaves
  nonempty := fun _ hreport => nomatch hreport
  declared := fun _ hreport => nomatch hreport
  first := fun _ hreport => nomatch hreport
  once := .nil
  complete := fun slot position => iff_of_false List.not_mem_nil (h slot position)

/-- Something is reported if and only if there is something to report. -/
theorem Reported.eq_nil_iff (h : Reported slots isDue leaves reports) :
    reports = [] ↔ ∀ slot position, ¬ isDue slot position := by
  constructor
  · rintro rfl slot position hdue
    have hmem := (h.complete slot position).2 hdue
    cases hmem
  · intro hnone
    cases reports with
    | nil => rfl
    | cons first rest =>
      obtain ⟨⟨slot, position⟩, hentry⟩ :=
        List.exists_mem_of_ne_nil _ (h.nonempty first List.mem_cons_self)
      have hmem : (slot, position) ∈ (first :: rest).flatMap Report.slots :=
        List.mem_flatMap.2 ⟨first, List.mem_cons_self, hentry⟩
      exact absurd ((h.complete slot position).1 hmem) (hnone slot position)

end Reports

/-! ## One leaf -/

section Leaves

variable {slots : List Slot} {leaf : Leaf} {pushed : Pushed} {bindings : Dict Value} {apart : List Nat}

/-- A leaf was pushed to the first slot that it feeds. -/
structure Leaf.PushedAs (slots : List Slot) (leaf : Leaf) (pushed : Pushed) : Prop where
  /-- The slot, whose key the report names. -/
  goes : ∃ slot, leaf.GoesTo slots pushed.attributeName slot ∧ pushed.key = slot.name
  /-- The position of the slot. -/
  position : leaf.firstPosition? slots = some pushed.position

theorem feeds_eq_refersTo {name : String} (h : leaf.attribute? = some name) :
    leaf.feeds = fun slot => slot.template.refersTo name := by
  funext slot
  rw [Leaf.feeds, h, Option.any_some]

/-- Whatever a leaf is routed to, it was pushed to the first slot that it feeds. -/
theorem pushedAs_of_route {routed : Pushed} (h : route slots bindings leaf = .ok (some routed)) :
    leaf.PushedAs slots routed := by
  rw [route] at h
  cases hslot : leaf.slot? slots with
  | none =>
    rw [hslot] at h
    cases h
  | some found =>
    obtain ⟨name, slot, position⟩ := found
    rw [hslot] at h
    obtain ⟨values, -, h⟩ := bind_eq_ok_iff.1 h
    cases h
    have hgoes := goesTo_of_slot? hslot
    refine ⟨⟨slot, hgoes, rfl⟩, ?_⟩
    rw [Leaf.slot?, hgoes.positive, (isKeyTest_iff _).2 hgoes.kind, hgoes.tested] at hslot
    obtain ⟨⟨first, index⟩, hfirst, heq⟩ := Option.bind_eq_some_iff.1 hslot
    cases heq
    rw [Leaf.firstPosition?, feeds_eq_refersTo hgoes.tested, List.findIdx?_eq_fst_find?_zipIdx]
    rw [slotOf?] at hfirst
    rw [hfirst, Option.map_some]

/-- The slots that are reported for a leaf are those that it feeds, as far as they are determined and not set
aside. -/
theorem mem_shadowedSlots_iff (h : leaf.PushedAs slots pushed) (hapart : pushed.position ∈ apart)
    {slot : Slot} {position : Nat} :
    (slot, position) ∈ shadowedSlots slots bindings apart pushed ↔
      slots[position]? = some slot ∧ position ∉ apart ∧ slot.isDetermined bindings = true ∧
        leaf.feeds slot = true := by
  obtain ⟨⟨chosen, hgoes, -⟩, hfirst⟩ := h
  have hfeeds : leaf.feeds slot = slot.template.refersTo pushed.attributeName := by
    rw [feeds_eq_refersTo hgoes.tested]
  rw [shadowedSlots, List.mem_filter, List.mem_zipIdx_iff_getElem?, hfeeds]
  simp only [Bool.and_eq_true, decide_eq_true_eq, Bool.not_eq_true', List.contains_eq_mem,
    decide_eq_false_iff_not]
  constructor
  · rintro ⟨hdeclared, ⟨⟨-, hnot⟩, hrefers⟩, hdetermined⟩
    exact ⟨hdeclared, hnot, hdetermined, hrefers⟩
  · rintro ⟨hdeclared, hnot, hdetermined, hrefers⟩
    refine ⟨hdeclared, ⟨⟨?_, hnot⟩, hrefers⟩, hdetermined⟩
    -- The slot that the leaf went to is the first one that it feeds, and it is set aside.
    obtain ⟨hlt, -, hbefore⟩ := List.findIdx?_eq_some_iff_getElem.1 hfirst
    rcases Nat.lt_trichotomy pushed.position position with hlt' | heq | hgt
    · exact hlt'
    · exact absurd (heq ▸ hapart) hnot
    · obtain ⟨hposition, hget⟩ := List.getElem?_eq_some_iff.1 hdeclared
      have hnone := hbefore position hgt
      rw [hget, hfeeds] at hnone
      exact absurd hrefers hnone

end Leaves

/-! ## All leaves -/

/-- A slot is to be reported for some leaves if the slots at the given positions are set aside. -/
structure IsDue (slots : List Slot) (bindings : Dict Value) (apart : List Nat) (leaves : List Leaf)
    (slot : Slot) (position : Nat) : Prop where
  /-- The slot is declared at the position. -/
  declared : slots[position]? = some slot
  /-- The slot is not set aside. -/
  free : position ∉ apart
  /-- The equalities determine the key of the slot. -/
  determined : slot.isDetermined bindings = true
  /-- One of the leaves feeds the slot. -/
  fed : ∃ leaf ∈ leaves, leaf.feeds slot = true

section Loop

variable {slots : List Slot} {bindings : Dict Value} {apart : List Nat} {leaf : Leaf}
  {leaves : List Leaf} {pushed : Pushed} {slot : Slot} {position : Nat} {reports : List Report}

/-- What is still to be reported when a leaf has its report, the leaf does not feed. -/
theorem not_feeds_of_isDue (h : leaf.PushedAs slots pushed) (hapart : pushed.position ∈ apart)
    (hdue : IsDue slots bindings (apart ++ (shadowedSlots slots bindings apart pushed).map (·.2)) leaves
      slot position) : leaf.feeds slot = false := by
  obtain ⟨hdeclared, hfree, hdetermined, -⟩ := hdue
  rw [List.mem_append, not_or] at hfree
  by_contra hfeeds
  have hfound := (mem_shadowedSlots_iff h hapart).2
    ⟨hdeclared, hfree.1, hdetermined, Bool.not_eq_false _ ▸ hfeeds⟩
  exact hfree.2 (List.mem_map_of_mem (f := Prod.snd) hfound)

/-- A slot is to be reported if it is reported for the first leaf or is to be for the others, without what
the first reported. -/
theorem isDue_cons_iff (h : leaf.PushedAs slots pushed) (hapart : pushed.position ∈ apart) :
    IsDue slots bindings apart (leaf :: leaves) slot position ↔
      (slot, position) ∈ shadowedSlots slots bindings apart pushed ∨
        IsDue slots bindings (apart ++ (shadowedSlots slots bindings apart pushed).map (·.2)) leaves
          slot position := by
  rw [mem_shadowedSlots_iff h hapart]
  constructor
  · rintro ⟨hdeclared, hfree, hdetermined, fed, hfed, hfeeds⟩
    by_cases hfirst : leaf.feeds slot = true
    · exact Or.inl ⟨hdeclared, hfree, hdetermined, hfirst⟩
    · refine Or.inr ⟨hdeclared, ?_, hdetermined, ?_⟩
      · rw [List.mem_append, not_or]
        refine ⟨hfree, fun hmem => ?_⟩
        -- There is one slot at a position, so the first leaf would have reported this one.
        obtain ⟨⟨other, index⟩, hother, rfl⟩ := List.mem_map.1 hmem
        obtain ⟨hdeclared', -, -, hfeeds'⟩ := (mem_shadowedSlots_iff h hapart).1 hother
        rw [hdeclared] at hdeclared'
        cases hdeclared'
        exact hfirst hfeeds'
      · rcases List.mem_cons.1 hfed with rfl | hfed
        · exact absurd hfeeds hfirst
        · exact ⟨fed, hfed, hfeeds⟩
  · rintro (⟨hdeclared, hfree, hdetermined, hfeeds⟩ | ⟨hdeclared, hfree, hdetermined, fed, hfed, hfeeds⟩)
    · exact ⟨hdeclared, hfree, hdetermined, leaf, List.mem_cons_self, hfeeds⟩
    · rw [List.mem_append, not_or] at hfree
      exact ⟨hdeclared, hfree.1, hdetermined, fed, List.mem_cons_of_mem _ hfed, hfeeds⟩

/-- A leaf does not feed what the others still report, so their reports stay under the first leaf that feeds
a slot when it stands before them. -/
theorem Reported.first_cons (h : leaf.PushedAs slots pushed) (hapart : pushed.position ∈ apart)
    (hrest : Reported slots
      (IsDue slots bindings (apart ++ (shadowedSlots slots bindings apart pushed).map (·.2)) leaves)
      leaves reports) :
    ∀ report ∈ reports, ∀ entry ∈ report.slots,
      (leaf :: leaves).find? (·.feeds entry.1) = some report.leaf := by
  rintro report hreport ⟨slot, position⟩ hentry
  have hdue := (hrest.complete slot position).1 (List.mem_flatMap.2 ⟨report, hreport, hentry⟩)
  rw [List.find?_cons_of_neg (by rw [not_feeds_of_isDue h hapart hdue]; exact Bool.false_ne_true)]
  exact hrest.first report hreport (slot, position) hentry

/-- A leaf that has nothing to report leaves the reports of the others as they are. -/
theorem Reported.skip (h : leaf.PushedAs slots pushed) (hapart : pushed.position ∈ apart)
    (hnone : shadowedSlots slots bindings apart pushed = [])
    (hrest : Reported slots (IsDue slots bindings apart leaves) leaves reports) :
    Reported slots (IsDue slots bindings apart (leaf :: leaves)) (leaf :: leaves) reports := by
  have happend : apart ++ (shadowedSlots slots bindings apart pushed).map (·.2) = apart := by
    rw [hnone, List.map_nil, List.append_nil]
  refine ⟨hrest.chosen, hrest.inOrder.cons _, hrest.nonempty, hrest.declared, ?_, hrest.once, ?_⟩
  · exact Reported.first_cons h hapart (happend.symm ▸ hrest)
  · intro slot position
    rw [hrest.complete, isDue_cons_iff h hapart, happend, hnone]
    simp

/-- A leaf that has something to report does so before the others, which leave it out. -/
theorem Reported.report {chosen : Slot} (h : leaf.PushedAs slots pushed)
    (hapart : pushed.position ∈ apart) (hgoes : leaf.GoesTo slots pushed.attributeName chosen)
    (hsome : shadowedSlots slots bindings apart pushed ≠ [])
    (hrest : Reported slots
      (IsDue slots bindings (apart ++ (shadowedSlots slots bindings apart pushed).map (·.2)) leaves)
      leaves reports) :
    Reported slots (IsDue slots bindings apart (leaf :: leaves)) (leaf :: leaves)
      (⟨leaf, pushed.attributeName, chosen, shadowedSlots slots bindings apart pushed⟩ :: reports) := by
  have hsublist : (shadowedSlots slots bindings apart pushed).Sublist slots.zipIdx :=
    List.filter_sublist
  refine ⟨?_, hrest.inOrder.cons_cons _, ?_, ?_, ?_, ?_, ?_⟩
  · exact List.forall_mem_cons.2 ⟨hgoes, hrest.chosen⟩
  · exact List.forall_mem_cons.2 ⟨hsome, hrest.nonempty⟩
  · exact List.forall_mem_cons.2 ⟨hsublist, hrest.declared⟩
  · refine List.forall_mem_cons.2 ⟨?_, Reported.first_cons h hapart hrest⟩
    rintro ⟨slot, position⟩ hentry
    exact List.find?_cons_of_pos ((mem_shadowedSlots_iff h hapart).1 hentry).2.2.2
  · rw [List.flatMap_cons, List.nodup_append]
    refine ⟨hsublist.nodup (List.nodup_zipIdx_map_snd slots).of_map, hrest.once, ?_⟩
    rintro entry hentry ⟨slot, position⟩ hother rfl
    have hfree := ((hrest.complete slot position).1 hother).free
    rw [List.mem_append, not_or] at hfree
    exact hfree.2 (List.mem_map_of_mem (f := Prod.snd) hentry)
  · intro slot position
    rw [List.flatMap_cons, List.mem_append, hrest.complete, isDue_cons_iff h hapart]

variable (bindings) in
/-- The loop over the leaves that went to keys reports exactly what is to be reported for them. -/
theorem reported_shadows {pushes : List Pushed}
    (h : List.Forall₂ (Leaf.PushedAs slots) leaves pushes)
    (hapart : ∀ pushed ∈ pushes, pushed.position ∈ apart) :
    ∃ reports : List Report, shadows slots bindings apart pushes = reports.map Report.shadow ∧
      Reported slots (IsDue slots bindings apart leaves) leaves reports := by
  induction h generalizing apart with
  | nil =>
    refine ⟨[], rfl, .nil ?_⟩
    rintro slot position ⟨-, -, -, leaf, hleaf, -⟩
    cases hleaf
  | @cons leaf pushed leaves pushes hhead _ ih =>
    obtain ⟨hposition, hrest⟩ := List.forall_mem_cons.1 hapart
    rw [shadows]
    cases hfound : shadowedSlots slots bindings apart pushed with
    | nil =>
      obtain ⟨reports, hreports, hexact⟩ := ih hrest
      exact ⟨reports, hreports, hexact.skip hhead hposition hfound⟩
    | cons first more =>
      obtain ⟨chosen, hgoes, hkey⟩ := hhead.goes
      have happend : ∀ pushed ∈ pushes, pushed.position ∈ apart ++ (first :: more).map (·.2) :=
        fun pushed hpushed => List.mem_append_left _ (hrest pushed hpushed)
      obtain ⟨reports, hreports, hexact⟩ := ih happend
      rw [← hfound] at hexact
      refine ⟨_, ?_, hexact.report hhead hposition hgoes (by simp [hfound])⟩
      rw [List.map_cons, Report.shadow, hfound]
      dsimp only
      rw [hreports, hkey]

end Loop

/-! ## Conjunctions -/

section Conjunctions

variable {slots : List Slot} {conjuncts part filters : List Condition} {pushed : List Pushed}
  {slot : Slot} {position : Nat}

/-- A conjunction is routed to one key for each of its leaves that go to keys, in order. -/
theorem pushedAs_of_routeAll {bindings : Dict Value}
    (h : routeAll slots bindings part = .ok (pushed, filters)) :
    List.Forall₂ (Leaf.PushedAs slots) (pushedLeaves slots part) pushed := by
  obtain ⟨parts, hparts, rfl, rfl⟩ := routeAll_eq_ok_iff.1 h
  clear h
  induction hparts with
  | nil => exact .nil
  | @cons conjunct place rest places hplace _ ih =>
    cases hkey : conjunct.isPushable slots with
    | false =>
      rw [place_of_not_pushable hkey] at hplace
      cases hplace
      have hpushed : conjunct.pushed? slots = none := by
        cases conjunct with
        | group joiner children negated => rfl
        | leaf leaf => rw [Condition.pushed?, hkey, if_neg Bool.false_ne_true]
      rwa [pushedLeaves, List.filterMap_cons_none hpushed]
    | true =>
      obtain ⟨leaf, name, slot, entry, rfl, rfl, -, hroute⟩ := place_ok hkey hplace
      rw [pushedLeaves, List.filterMap_cons_some (by rw [Condition.pushed?, if_pos hkey])]
      exact .cons (pushedAs_of_route hroute) ih

/-- The bindings of a conjunction determine a slot if its equalities give a value to every reference. -/
theorem isDetermined_bindings_iff :
    slot.isDetermined (bindings conjuncts) = true ↔
      ∀ name ∈ slot.template.references, ∃ value, pinned? conjuncts name = some value := by
  rw [Slot.isDetermined, List.all_eq_true]
  apply forall₂_congr
  intro name _
  rw [Dict.contains, get?_bindings, Option.isSome_iff_exists]

/-- If the keys that leaves went to are set aside, what is to be reported are the shadowed slots. -/
theorem isDue_iff_shadowed (h : List.Forall₂ (Leaf.PushedAs slots) (pushedLeaves slots conjuncts) pushed) :
    IsDue slots (bindings conjuncts) (pushed.map (·.position)) (pushedLeaves slots conjuncts) slot
      position ↔ Shadowed slots conjuncts slot position := by
  have hfree : position ∉ pushed.map (·.position) ↔
      ∀ leaf ∈ pushedLeaves slots conjuncts, leaf.firstPosition? slots ≠ some position := by
    rw [List.mem_map]
    constructor
    · intro hnot leaf hleaf hposition
      obtain ⟨entry, hentry, hpushed⟩ := exists_right_of_mem h hleaf
      rw [hpushed.position] at hposition
      exact hnot ⟨entry, hentry, Option.some.inj hposition⟩
    · rintro hall ⟨entry, hentry, rfl⟩
      obtain ⟨leaf, hleaf, hpushed⟩ := exists_left_of_mem h hentry
      exact hall leaf hleaf hpushed.position
  constructor
  · rintro ⟨hdeclared, hapart, hdetermined, hfed⟩
    exact ⟨hdeclared, hfree.1 hapart, hfed, isDetermined_bindings_iff.1 hdetermined⟩
  · rintro ⟨hdeclared, hunconstrained, hfed, hdetermined⟩
    exact ⟨hdeclared, hfree.2 hunconstrained, isDetermined_bindings_iff.2 hdetermined, hfed⟩

/-- The shadows of a routed conjunction are reports of its shadowed slots. -/
theorem reported_shadowed (h : routeAll slots (bindings conjuncts) conjuncts = .ok (pushed, filters)) :
    ∃ reports : List Report,
      shadows slots (bindings conjuncts) (pushed.map (·.position)) pushed = reports.map Report.shadow ∧
        Reported slots (Shadowed slots conjuncts) (pushedLeaves slots conjuncts) reports := by
  have hpushed := pushedAs_of_routeAll h
  obtain ⟨reports, hreports, hexact⟩ := reported_shadows (bindings conjuncts) hpushed
    fun entry hentry => List.mem_map_of_mem (f := Pushed.position) hentry
  refine ⟨reports, hreports, { hexact with complete := fun slot position => ?_ }⟩
  rw [hexact.complete, isDue_iff_shadowed hpushed]

end Conjunctions

/-! ## Policies -/

/-- The conjuncts of a condition that a planner looks at one by one. -/
def Condition.planned (condition : Condition) : List Condition := condition.conjunction?.getD []

namespace Planner

variable {model : String} {slots : List Slot} {condition : Condition} {reports : List Report}

theorem judge_warn : judge ⟨model, slots, .warn⟩ (reports.map Report.shadow) =
    .ok (reports.map (Report.warning model)) := by
  unfold judge
  dsimp only
  rw [List.map_map]
  rfl

/-- Only the verdict on the reports depends on the policy. -/
theorem planAll_of_routeAll {policy : SharedKeyPolicy} {conjuncts filters : List Condition}
    {pushed : List Pushed}
    (hroute : routeAll slots (bindings conjuncts) conjuncts = .ok (pushed, filters))
    (hreports : shadows slots (bindings conjuncts) (pushed.map (·.position)) pushed =
      reports.map Report.shadow) :
    planAll ⟨model, slots, policy⟩ conjuncts =
      (judge ⟨model, slots, policy⟩ (reports.map Report.shadow)).map fun warnings =>
        (⟨pushed.map fun entry => .leaf entry.leaf, filters⟩, warnings) := by
  rw [planAll, hroute]
  dsimp only [bind, Except.bind]
  rw [hreports]
  rfl

/-- Routing that fails does so under every policy. -/
theorem plan_of_unresolvable
    (h : ∃ conjunct ∈ condition.planned, conjunct.Unresolvable slots condition.planned) :
    ∃ failure, ∀ policy, plan ⟨model, slots, policy⟩ condition = .error failure := by
  cases hgroup : condition.conjunction? with
  | none =>
    rw [Condition.planned, hgroup] at h
    obtain ⟨conjunct, hconjunct, -⟩ := h
    cases hconjunct
  | some conjuncts =>
    rw [Condition.planned, hgroup] at h
    obtain ⟨failure, hfailure⟩ := (routeAll_unresolvable_iff slots conjuncts).2 h
    refine ⟨failure, fun policy => ?_⟩
    rw [plan_of_conjunction _ hgroup, planAll, hfailure]
    rfl

variable (model) in
/-- Routing that succeeds gives one plan and one list of reports, on which the policies give their
verdicts. -/
theorem plan_of_resolvable
    (h : ¬ ∃ conjunct ∈ condition.planned, conjunct.Unresolvable slots condition.planned) :
    ∃ (split : Plan) (reports : List Report),
      Reported slots (Shadowed slots condition.planned) (pushedLeaves slots condition.planned) reports ∧
        ∀ policy, plan ⟨model, slots, policy⟩ condition =
          (judge ⟨model, slots, policy⟩ (reports.map Report.shadow)).map fun warnings =>
            (split, warnings) := by
  cases hgroup : condition.conjunction? with
  | none =>
    rw [Condition.planned, hgroup]
    refine ⟨.filterOnly condition, [], .nil ?_, fun policy => ?_⟩
    · rintro slot position ⟨-, -, ⟨leaf, hleaf, -⟩, -⟩
      cases hleaf
    · rw [plan_of_no_conjunction _ hgroup]
      cases policy <;> rfl
  | some conjuncts =>
    rw [Condition.planned, hgroup] at h ⊢
    cases hroute : routeAll slots (bindings conjuncts) conjuncts with
    | error failure => exact absurd ((routeAll_unresolvable_iff slots conjuncts).1 ⟨failure, hroute⟩) h
    | ok routed =>
      obtain ⟨pushed, filters⟩ := routed
      obtain ⟨reports, hreports, hexact⟩ := reported_shadowed hroute
      refine ⟨⟨pushed.map fun entry => .leaf entry.leaf, filters⟩, reports, hexact, fun policy => ?_⟩
      rw [plan_of_conjunction _ hgroup, planAll_of_routeAll hroute hreports]

/-- **The policies differ in their reports only.** If a conjunct cannot be resolved, both policies fail with
the same failure. Otherwise the lenient policy succeeds, and its warnings are exact reports of the shadowed
slots; the strict policy makes the same plan if no slot is shadowed, and else fails with the attribute, the
key and the slots of the first warning. -/
theorem policies_differ_in_reports (model : String) (slots : List Slot) (condition : Condition) :
    ((∃ conjunct ∈ condition.planned, conjunct.Unresolvable slots condition.planned) →
      ∃ failure, plan ⟨model, slots, .warn⟩ condition = .error failure ∧
        plan ⟨model, slots, .reject⟩ condition = .error failure) ∧
    ((¬ ∃ conjunct ∈ condition.planned, conjunct.Unresolvable slots condition.planned) →
      ∃ (split : Plan) (reports : List Report),
        plan ⟨model, slots, .warn⟩ condition = .ok (split, reports.map (Report.warning model)) ∧
        Reported slots (Shadowed slots condition.planned) (pushedLeaves slots condition.planned) reports ∧
        ((∀ slot position, ¬ Shadowed slots condition.planned slot position) ↔
          plan ⟨model, slots, .reject⟩ condition = .ok (split, [])) ∧
        ((∃ slot position, Shadowed slots condition.planned slot position) →
          ∃ name chosen shadowed,
            (reports.map (Report.warning model)).head? = some (.shadowedKeys model name chosen shadowed) ∧
              plan ⟨model, slots, .reject⟩ condition = .error (.ambiguousKey name chosen shadowed))) := by
  constructor
  · intro hunresolvable
    obtain ⟨failure, hfailure⟩ := plan_of_unresolvable hunresolvable
    exact ⟨failure, hfailure .warn, hfailure .reject⟩
  · intro hresolvable
    obtain ⟨split, reports, hexact, hplan⟩ := plan_of_resolvable model hresolvable
    refine ⟨split, reports, ?_, hexact, ?_, ?_⟩
    · rw [hplan, judge_warn]
      rfl
    · rw [← hexact.eq_nil_iff, hplan]
      cases reports with
      | nil => exact ⟨fun _ => rfl, fun _ => rfl⟩
      | cons first rest =>
        constructor
        · intro hnil
          cases hnil
        · intro hok
          cases hok
    · rintro ⟨slot, position, hshadowed⟩
      cases reports with
      | nil => exact absurd hshadowed (hexact.eq_nil_iff.1 rfl slot position)
      | cons first rest =>
        refine ⟨_, _, _, rfl, ?_⟩
        rw [hplan]
        rfl

/-! ### Visits by user and by day -/

/-- The keys of visits. -/
def visitSlots : List Slot :=
  [⟨"PK", .parse "USER#${user}"⟩, ⟨"SK", .parse "VISITOR#${user}"⟩, ⟨"TK", .parse "${user}#${day}"⟩,
    ⟨"UK", .parse "DAY#${day}"⟩, ⟨"VK", .parse "${day}#${user}"⟩]

/-- The visits of a user on a day. -/
def visitCondition : Condition :=
  .all [.leaf ((Test.compare .eq ⟨"user", none⟩ (.string "ann")).leaf 0),
    .leaf ((Test.compare .eq ⟨"day", none⟩ (.number "7")).leaf 1)]

/-- Three of the keys are shadowed, two of them under the user and one under the day, although both feed the
last. -/
theorem policies_differ_on_visits :
    (¬ ∃ conjunct ∈ visitCondition.planned,
      conjunct.Unresolvable visitSlots visitCondition.planned) ∧
    Shadowed visitSlots visitCondition.planned ⟨"VK", .parse "${day}#${user}"⟩ 4 ∧
    ∃ (split : Plan) (reports : List Report),
      Reported visitSlots (Shadowed visitSlots visitCondition.planned)
        (pushedLeaves visitSlots visitCondition.planned) reports ∧
      plan ⟨"Visit", visitSlots, .warn⟩ visitCondition =
        .ok (split, reports.map (Report.warning "Visit")) ∧
      reports.map (Report.warning "Visit") =
        [.shadowedKeys "Visit" "user" "PK" ["SK", "VK"], .shadowedKeys "Visit" "day" "TK" ["UK"]] ∧
      plan ⟨"Visit", visitSlots, .reject⟩ visitCondition =
        .error (.ambiguousKey "user" "PK" ["SK", "VK"]) := by
  have hresolvable : ¬ ∃ conjunct ∈ visitCondition.planned,
      conjunct.Unresolvable visitSlots visitCondition.planned := by
    rw [← routeAll_unresolvable_iff]
    rintro ⟨failure, hfailure⟩
    have hok : (routeAll visitSlots (bindings visitCondition.planned)
        visitCondition.planned).toOption.isSome = true := by decide +kernel
    rw [hfailure] at hok
    cases hok
  have hshadowed : Shadowed visitSlots visitCondition.planned ⟨"VK", .parse "${day}#${user}"⟩ 4 := by
    refine ⟨by decide +kernel, by decide +kernel, by decide +kernel, ?_⟩
    rw [← isDetermined_bindings_iff]
    decide +kernel
  obtain ⟨-, hdiffer⟩ := policies_differ_in_reports "Visit" visitSlots visitCondition
  obtain ⟨split, reports, hwarn, hexact, -, hreject⟩ := hdiffer hresolvable
  have hwarnings : (plan ⟨"Visit", visitSlots, .warn⟩ visitCondition).toOption.map Prod.snd =
      some [.shadowedKeys "Visit" "user" "PK" ["SK", "VK"], .shadowedKeys "Visit" "day" "TK" ["UK"]] := by
    decide +kernel
  rw [hwarn] at hwarnings
  have hreports : reports.map (Report.warning "Visit") =
      [.shadowedKeys "Visit" "user" "PK" ["SK", "VK"], .shadowedKeys "Visit" "day" "TK" ["UK"]] :=
    Option.some.inj hwarnings
  obtain ⟨name, chosen, shadowed, hfirst, hfailure⟩ := hreject ⟨_, _, hshadowed⟩
  rw [hreports] at hfirst
  cases hfirst
  exact ⟨hresolvable, hshadowed, split, reports, hexact, hwarn, hreports, hfailure⟩

end Planner

end SingleTable
