import Mathlib.Data.List.Perm.Basic
import SingleTable.Proofs.Plan.Shadowing

/-!
# The order of conjuncts

A conjunction means the same in every order, and its plan is the same up to the order of its conditions
(`Planner.plan_of_permuted`): it fails in every order or in none, under either policy, and the conditions of
both halves are permuted.

The planner reads the order of the conjuncts in two places. The bindings take the first equality with an
attribute, so equalities that disagree have to be excluded (`PinsAgree`); then the bindings do not depend on
the order (`bindings_of_perm`), and each conjunct has a place in the plan of its own (`Condition.place`). The
reports name a shadowed slot under the first leaf that feeds it, but whether there is one depends on the
conjuncts only (`shadowed_iff_of_perm`).
-/

set_option autoImplicit false

namespace SingleTable

/-! ## Equalities that agree -/

/-- An equality of a conjunction pins an attribute to a value. -/
def Pins (conjuncts : List Condition) (name : String) (value : Value) : Prop :=
  ∃ conjunct ∈ conjuncts, conjunct.valueOf? name = some value

/-- No attribute is pinned to two values. -/
def PinsAgree (conjuncts : List Condition) : Prop :=
  ∀ name value other, Pins conjuncts name value → Pins conjuncts name other → value = other

section Equalities

variable {conjuncts permuted : List Condition} {name : String} {value : Value}

theorem pins_iff : Pins conjuncts name value ↔ (name, value) ∈ conjuncts.filterMap Condition.equality? := by
  rw [Pins, List.mem_filterMap]
  apply exists_congr
  intro conjunct
  rw [equality?_iff]

theorem pinsAgree_iff : PinsAgree conjuncts ↔
    ∀ first ∈ conjuncts.filterMap Condition.equality?, ∀ second ∈ conjuncts.filterMap Condition.equality?,
      first.1 = second.1 → first.2 = second.2 := by
  simp only [PinsAgree, pins_iff]
  constructor
  · rintro hagree ⟨name, value⟩ hvalue ⟨_, other⟩ hother rfl
    exact hagree name value other hvalue hother
  · intro hall name value other hvalue hother
    exact hall (name, value) hvalue (name, other) hother rfl

instance : DecidablePred PinsAgree := fun _ => decidable_of_iff' _ pinsAgree_iff

theorem Pins.of_perm (h : permuted.Perm conjuncts) (hpins : Pins permuted name value) :
    Pins conjuncts name value := by
  obtain ⟨conjunct, hconjunct, hvalue⟩ := hpins
  exact ⟨conjunct, h.subset hconjunct, hvalue⟩

theorem PinsAgree.of_perm (h : permuted.Perm conjuncts) (hagree : PinsAgree conjuncts) :
    PinsAgree permuted :=
  fun name value other hvalue hother => hagree name value other (hvalue.of_perm h) (hother.of_perm h)

/-- Among equalities that agree, the first with an attribute is any of them. -/
theorem pinned?_eq_some_iff (hagree : PinsAgree conjuncts) :
    pinned? conjuncts name = some value ↔ Pins conjuncts name value := by
  constructor
  · exact List.exists_of_findSome?_eq_some
  · rintro ⟨conjunct, hconjunct, hvalue⟩
    cases hfirst : pinned? conjuncts name with
    | none =>
      rw [pinned?, List.findSome?_eq_none_iff] at hfirst
      rw [hfirst conjunct hconjunct] at hvalue
      cases hvalue
    | some first =>
      have hpins : Pins conjuncts name first := List.exists_of_findSome?_eq_some hfirst
      rw [hagree name first value hpins ⟨conjunct, hconjunct, hvalue⟩]

theorem pinned?_of_perm (hagree : PinsAgree conjuncts) (h : permuted.Perm conjuncts) (name : String) :
    pinned? permuted name = pinned? conjuncts name := by
  apply Option.ext
  intro value
  rw [pinned?_eq_some_iff hagree, pinned?_eq_some_iff (hagree.of_perm h)]
  exact ⟨Pins.of_perm h, Pins.of_perm h.symm⟩

/-- Equalities that agree give the same bindings in every order. -/
theorem bindings_of_perm (hagree : PinsAgree conjuncts) (h : permuted.Perm conjuncts) :
    bindings permuted = bindings conjuncts := by
  apply Dict.ext_get?
  intro name
  rw [get?_bindings, get?_bindings, pinned?_of_perm hagree h]

end Equalities

/-! ## Routing -/

section Routes

variable {slots : List Slot} {dict : Dict Value} {conjuncts permuted filters : List Condition}
  {pushed : List Pushed}

/-- Conjuncts in another order have the same places. -/
theorem exists_routeAll_of_perm (h : permuted.Perm conjuncts)
    (hroute : routeAll slots dict conjuncts = .ok (pushed, filters)) :
    ∃ others otherFilters, routeAll slots dict permuted = .ok (others, otherFilters) ∧
      others.Perm pushed ∧ otherFilters.Perm filters := by
  obtain ⟨parts, hparts, rfl, rfl⟩ := routeAll_eq_ok_iff.1 hroute
  obtain ⟨others, hothers, hperm⟩ := List.perm_comp_forall₂ h hparts
  exact ⟨_, _, routeAll_eq_ok_iff.2 ⟨others, hothers, rfl, rfl⟩, hperm.filterMap _, hperm.filterMap _⟩

end Routes

/-! ## Shadowed slots -/

section Shadows

variable {slots : List Slot} {conjuncts permuted : List Condition} {slot : Slot} {position : Nat}

variable (slots) in
theorem pushedLeaves_of_perm (h : permuted.Perm conjuncts) :
    (pushedLeaves slots permuted).Perm (pushedLeaves slots conjuncts) :=
  h.filterMap _

theorem Shadowed.of_perm (hagree : PinsAgree conjuncts) (h : permuted.Perm conjuncts)
    (hshadowed : Shadowed slots conjuncts slot position) : Shadowed slots permuted slot position := by
  have hleaves := pushedLeaves_of_perm slots h
  obtain ⟨hdeclared, hunconstrained, ⟨leaf, hleaf, hfeeds⟩, hdetermined⟩ := hshadowed
  refine ⟨hdeclared, ?_, ⟨leaf, hleaves.symm.subset hleaf, hfeeds⟩, ?_⟩
  · intro leaf hleaf
    exact hunconstrained leaf (hleaves.subset hleaf)
  · intro name hname
    rw [pinned?_of_perm hagree h]
    exact hdetermined name hname

/-- Which slots are shadowed does not depend on the order of equalities that agree. -/
theorem shadowed_iff_of_perm (hagree : PinsAgree conjuncts) (h : permuted.Perm conjuncts) :
    Shadowed slots permuted slot position ↔ Shadowed slots conjuncts slot position :=
  ⟨.of_perm (hagree.of_perm h) h.symm, .of_perm hagree h⟩

end Shadows

namespace Planner

/-! ## Plans -/

section Plans

variable {planner : Planner} {conjuncts permuted : List Condition} {split : Plan}
  {warnings : List Warning}

/-- The strict policy forbids reports, the lenient one turns all of them into warnings. -/
theorem exists_judge_iff (planner : Planner) (shadows : List Shadow) :
    (∃ warnings, planner.judge shadows = .ok warnings) ↔ (planner.policy = .reject → shadows = []) := by
  obtain ⟨model, slots, policy⟩ := planner
  cases policy with
  | warn => simp [judge]
  | reject => cases shadows <;> simp [judge]

/-- A routed conjunction has no reports if no slot is shadowed. -/
theorem shadows_eq_nil_iff {slots : List Slot} {pushed : List Pushed} {filters : List Condition}
    (hroute : routeAll slots (bindings conjuncts) conjuncts = .ok (pushed, filters)) :
    shadows slots (bindings conjuncts) (pushed.map (·.position)) pushed = [] ↔
      ∀ slot position, ¬ Shadowed slots conjuncts slot position := by
  obtain ⟨reports, hreports, hexact⟩ := reported_shadowed hroute
  rw [hreports, List.map_eq_nil_iff, hexact.eq_nil_iff]

/-- A conjunction has a plan if its conjuncts are routed and the policy allows for its shadowed slots. -/
theorem exists_planAll_iff (planner : Planner) (conjuncts : List Condition) (split : Plan) :
    (∃ warnings, planner.planAll conjuncts = .ok (split, warnings)) ↔
      ∃ pushed,
        routeAll planner.slots (bindings conjuncts) conjuncts = .ok (pushed, split.filterConditions) ∧
        split.keyConditions = pushed.map (fun entry => .leaf entry.leaf) ∧
        (planner.policy = .reject → ∀ slot position, ¬ Shadowed planner.slots conjuncts slot position) := by
  constructor
  · rintro ⟨warnings, h⟩
    rw [planAll, bind_eq_ok_iff] at h
    obtain ⟨⟨pushed, filters⟩, hroute, h⟩ := h
    obtain ⟨verdict, hverdict, h⟩ := bind_eq_ok_iff.1 h
    cases h
    refine ⟨pushed, hroute, rfl, fun hreject => ?_⟩
    exact (shadows_eq_nil_iff hroute).1 ((exists_judge_iff planner _).1 ⟨_, hverdict⟩ hreject)
  · rintro ⟨pushed, hroute, hkeys, hallowed⟩
    obtain ⟨verdict, hverdict⟩ := (exists_judge_iff planner _).2 fun hreject =>
      (shadows_eq_nil_iff hroute).2 (hallowed hreject)
    refine ⟨verdict, ?_⟩
    refine bind_eq_ok_iff.2 ⟨_, hroute, bind_eq_ok_iff.2 ⟨verdict, hverdict, ?_⟩⟩
    rw [← hkeys]

/-- Conjuncts in another order have a plan with the same conditions in another order. -/
theorem exists_planAll_of_perm (hagree : PinsAgree conjuncts) (h : permuted.Perm conjuncts)
    (hplan : ∃ warnings, planner.planAll conjuncts = .ok (split, warnings)) :
    ∃ other warnings, planner.planAll permuted = .ok (other, warnings) ∧
      other.keyConditions.Perm split.keyConditions ∧
      other.filterConditions.Perm split.filterConditions := by
  obtain ⟨pushed, hroute, hkeys, hallowed⟩ := (exists_planAll_iff planner conjuncts split).1 hplan
  -- The bindings are the same, so every conjunct keeps its place.
  rw [← bindings_of_perm hagree h] at hroute
  obtain ⟨others, filters, hothers, hpushed, hfilters⟩ := exists_routeAll_of_perm h hroute
  have hallowed' : planner.policy = .reject →
      ∀ slot position, ¬ Shadowed planner.slots permuted slot position := by
    intro hreject slot position
    rw [shadowed_iff_of_perm hagree h]
    exact hallowed hreject slot position
  obtain ⟨warnings, hother⟩ :=
    (exists_planAll_iff planner permuted ⟨others.map fun entry => .leaf entry.leaf, filters⟩).2
      ⟨others, hothers, rfl, hallowed'⟩
  refine ⟨_, warnings, hother, ?_, hfilters⟩
  rw [hkeys]
  exact hpushed.map _

end Plans

/-- **The order of a conjunction does not matter.** If its equalities agree, a conjunction has a plan in every
order or in none, under either policy, and the plans of two orders have the same key conditions, values
included, and the same filters up to their order. -/
theorem plan_of_permuted (planner : Planner) {conjuncts permuted : List Condition}
    (hagree : PinsAgree conjuncts) (h : permuted.Perm conjuncts) :
    ((∃ split warnings, planner.plan (.all permuted) = .ok (split, warnings)) ↔
      ∃ split warnings, planner.plan (.all conjuncts) = .ok (split, warnings)) ∧
    ∀ split warnings other others, planner.plan (.all conjuncts) = .ok (split, warnings) →
      planner.plan (.all permuted) = .ok (other, others) →
      other.keyConditions.Perm split.keyConditions ∧
        other.filterConditions.Perm split.filterConditions := by
  refine ⟨⟨?_, ?_⟩, ?_⟩
  · rintro ⟨split, warnings, hplan⟩
    obtain ⟨other, others, hother, -⟩ :=
      exists_planAll_of_perm (hagree.of_perm h) h.symm ⟨warnings, hplan⟩
    exact ⟨other, others, hother⟩
  · rintro ⟨split, warnings, hplan⟩
    obtain ⟨other, others, hother, -⟩ := exists_planAll_of_perm hagree h ⟨warnings, hplan⟩
    exact ⟨other, others, hother⟩
  · intro split warnings other others hplan hother
    obtain ⟨found, reports, hfound, hkeys, hfilters⟩ := exists_planAll_of_perm hagree h ⟨warnings, hplan⟩
    -- A conjunction has one plan, so the one that was found is the given one.
    cases hother.symm.trans hfound
    exact ⟨hkeys, hfilters⟩

/-! ### Photos of an album -/

/-- The keys of photos. -/
def photoSlots : List Slot := [⟨"PK", .parse "ALBUM#${album}"⟩, ⟨"SK", .parse "${time}#${album}"⟩]

/-- The photos of an album from some time on, those with few stars. -/
def photoConjuncts : List Condition :=
  [.leaf ((Test.compare .ge ⟨"time", none⟩ (.number "5")).leaf 0),
    .leaf ((Test.compare .lt ⟨"stars", none⟩ (.number "3")).leaf 1),
    .leaf ((Test.compare .eq ⟨"album", none⟩ (.string "sea")).leaf 2)]

/-- In either order the album completes the sort key, and the stars are left to the filters. -/
theorem plan_of_permuted_photos :
    PinsAgree photoConjuncts ∧ photoConjuncts.reverse.Perm photoConjuncts ∧
    ∃ split warnings other others,
      plan ⟨"Photo", photoSlots, .reject⟩ (.all photoConjuncts) = .ok (split, warnings) ∧
      plan ⟨"Photo", photoSlots, .reject⟩ (.all photoConjuncts.reverse) = .ok (other, others) ∧
      split.keyConditions.length = 2 ∧
      other.keyConditions.Perm split.keyConditions ∧
      other.filterConditions.Perm split.filterConditions := by
  have hagree : PinsAgree photoConjuncts := by decide +kernel
  have hperm : photoConjuncts.reverse.Perm photoConjuncts := List.reverse_perm _
  obtain ⟨hsucceeds, hplans⟩ := plan_of_permuted ⟨"Photo", photoSlots, .reject⟩ hagree hperm
  have hlength : (plan ⟨"Photo", photoSlots, .reject⟩ (.all photoConjuncts)).toOption.map
      (fun planned => planned.1.keyConditions.length) = some 2 := by
    decide +kernel
  cases hplan : plan ⟨"Photo", photoSlots, .reject⟩ (.all photoConjuncts) with
  | error failure =>
    rw [hplan] at hlength
    cases hlength
  | ok planned =>
    obtain ⟨split, warnings⟩ := planned
    rw [hplan] at hlength
    obtain ⟨other, others, hother⟩ := hsucceeds.2 ⟨split, warnings, hplan⟩
    obtain ⟨hkeys, hfilters⟩ := hplans split warnings other others hplan hother
    exact ⟨hagree, hperm, split, warnings, other, others, rfl, hother, Option.some.inj hlength, hkeys,
      hfilters⟩

/-- Equalities that disagree complete the sort key by the one that stands first. -/
example :
    let time : Condition := .leaf ((Test.compare .ge ⟨"time", none⟩ (.number "5")).leaf 0)
    let sea : Condition := .leaf ((Test.compare .eq ⟨"album", none⟩ (.string "sea")).leaf 1)
    let sky : Condition := .leaf ((Test.compare .eq ⟨"album", none⟩ (.string "sky")).leaf 2)
    let keys := fun conjuncts =>
      (plan ⟨"Photo", photoSlots, .warn⟩ (.all conjuncts)).toOption.map (·.1.keyConditions)
    ¬ PinsAgree [time, sea, sky] ∧
      (keys [time, sea, sky]).bind List.head? ≠ (keys [time, sky, sea]).bind List.head? := by
  decide +kernel

end Planner

end SingleTable
