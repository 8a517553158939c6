import Mathlib.Data.List.Sort
import SingleTable.Proofs.Template.Filling

/-!
# What resolving gives

A template resolves to the texts of its segments, one behind the other, or fails: with all names that have no
value, or, if every name has one, with the first value that has no text (`Template.Outcome`). Which of them it
is depends on the look-up only and there is always exactly one (`Template.resolve_eq_iff`).

A computation that goes through a list and stops at the first failure is described by `FailsFirst`.
-/

set_option autoImplicit false

namespace SingleTable

/-! ## First failures -/

section FirstFailures

variable {α β : Type} {f : α → Except Failure β} {first : α} {rest : List α} {failure : Failure}

/-- The first item of a list that fails does so with the given failure. -/
def FailsFirst (f : α → Except Failure β) (items : List α) (failure : Failure) : Prop :=
  ∃ front item back, items = front ++ item :: back ∧
    (∀ earlier ∈ front, ∃ result, f earlier = .ok result) ∧ f item = .error failure

theorem not_failsFirst_nil : ¬ FailsFirst f [] failure := by
  rintro ⟨front, item, back, h, -, -⟩
  cases front <;> cases h

theorem failsFirst_cons_iff :
    FailsFirst f (first :: rest) failure ↔
      f first = .error failure ∨ (∃ result, f first = .ok result) ∧ FailsFirst f rest failure := by
  constructor
  · rintro ⟨front, item, back, hitems, hfront, hfails⟩
    cases front with
    | nil =>
      cases hitems
      exact Or.inl hfails
    | cons earlier front =>
      cases hitems
      obtain ⟨hfirst, hmore⟩ := List.forall_mem_cons.1 hfront
      exact Or.inr ⟨hfirst, front, item, back, rfl, hmore, hfails⟩
  · rintro (hfails | ⟨hfirst, front, item, back, rfl, hfront, hfails⟩)
    · exact ⟨[], first, rest, rfl, nofun, hfails⟩
    · exact ⟨first :: front, item, back, rfl, List.forall_mem_cons.2 ⟨hfirst, hfront⟩, hfails⟩

end FirstFailures

/-! ## Values -/

namespace Value

/-- The kinds of values that can stand inside a key. -/
def scalarKinds : List ValueType := [.string, .number, .boolean, .null]

/-- How a value is written inside a key. -/
inductive WrittenAs : Value → String → Prop
  | string (text : String) : WrittenAs (.string text) text
  | number (digits : String) : WrittenAs (.number digits) digits
  | truth : WrittenAs (.boolean true) "true"
  | untruth : WrittenAs (.boolean false) "false"
  | null (value : Bool) : WrittenAs (.null value) "null"

theorem keyText?_eq_some_iff {value : Value} {text : String} :
    value.keyText? = some text ↔ value.WrittenAs text := by
  constructor
  · intro h
    cases value with
    | boolean truth =>
      cases truth with
      | true =>
        cases h
        exact .truth
      | false =>
        cases h
        exact .untruth
    | string _ | number _ | null _ =>
      cases h
      constructor
    | _ => cases h
  · intro h
    cases h <;> rfl

theorem kind_mem_scalarKinds_iff {value : Value} :
    value.kind ∈ scalarKinds ↔ ∃ text, value.keyText? = some text := by
  cases value <;> simp [kind, scalarKinds, keyText?]

end Value

namespace Template

variable {template : Template} {lookup : String → Option Value} {segments : List Segment}

/-! ## The outcomes -/

/-- What stands in a key for a segment. -/
inductive Gives (lookup : String → Option Value) : Segment → String → Prop
  | literal (text : String) : Gives lookup (.literal text) text
  | reference {name : String} {value : Value} {text : String} :
      lookup name = some value → value.WrittenAs text → Gives lookup (.reference name) text

/-- One name is referred to before another one is for the first time. -/
def RefersBefore (template : Template) (first second : String) : Prop :=
  template.references.idxOf first < template.references.idxOf second

/-- What resolving a template with a look-up gives. -/
inductive Outcome (template : Template) (lookup : String → Option Value) : Except Failure String → Prop
  /-- The key, if every segment gives a text. -/
  | key (texts : List String) (gives : List.Forall₂ (Gives lookup) template.segments texts) :
      Outcome template lookup (.ok (String.join texts))
  /-- The names without a value, in the order of their first references. -/
  | missing (names : List String) (nonempty : names ≠ [])
      (unbound : ∀ name, name ∈ names ↔ name ∈ template.references ∧ lookup name = none)
      (ordered : names.Pairwise template.RefersBefore) :
      Outcome template lookup (.error (.missingReferences template.text names))
  /-- The first value that cannot stand inside a key, if every name has a value. -/
  | unsupported (front back : List String) (name : String) (value : Value)
      (bound : ∀ other ∈ template.references, lookup other ≠ none)
      (cut : template.references = front ++ name :: back)
      (scalars : ∀ other ∈ front, ∃ found, lookup other = some found ∧ found.kind ∈ Value.scalarKinds)
      (found : lookup name = some value) (unwritten : value.kind ∉ Value.scalarKinds) :
      Outcome template lookup (.error (.unsupportedValue template.text name value.kind))

/-! ## Names without a value -/

theorem mem_missing_iff {name : String} :
    name ∈ template.missing lookup ↔ name ∈ template.references ∧ lookup name = none := by
  rw [missing, List.mem_eraseDups, List.mem_filter, Option.isNone_iff_eq_none]

/-- Keeping the first of equal items keeps the order of first occurrences. -/
theorem pairwise_eraseDups_filter (p : String → Bool) (names : List String) :
    (names.filter p).eraseDups.Pairwise fun first second => names.idxOf first < names.idxOf second := by
  -- The induction changes the filter: behind a kept name, the name is filtered out.
  induction names generalizing p with
  | nil => exact .nil
  | cons name rest ih =>
    have hlater : ∀ {first second}, first ≠ name → second ≠ name →
        rest.idxOf first < rest.idxOf second →
          (name :: rest).idxOf first < (name :: rest).idxOf second := by
      intro first second hfirst hsecond hlt
      rw [List.idxOf_cons_ne rest hfirst.symm, List.idxOf_cons_ne rest hsecond.symm]
      exact Nat.succ_lt_succ hlt
    cases hkept : p name with
    | false =>
      rw [List.filter_cons_of_neg (by rw [hkept]; exact Bool.false_ne_true)]
      have hne : ∀ other ∈ (rest.filter p).eraseDups, other ≠ name := by
        rintro other hother rfl
        rw [List.mem_eraseDups, List.mem_filter, hkept] at hother
        cases hother.2
      exact (ih p).imp_of_mem fun hfirst hsecond hlt => hlater (hne _ hfirst) (hne _ hsecond) hlt
    | true =>
      rw [List.filter_cons_of_pos hkept, List.eraseDups_cons, List.filter_filter]
      have hne : ∀ other ∈ (rest.filter fun other => !other == name && p other).eraseDups,
          other ≠ name := by
        intro other hother
        rw [List.mem_eraseDups, List.mem_filter] at hother
        simpa using (Bool.and_eq_true_iff.1 hother.2).1
      rw [List.pairwise_cons]
      refine ⟨?_, (ih _).imp_of_mem fun hfirst hsecond hlt => hlater (hne _ hfirst) (hne _ hsecond) hlt⟩
      intro other hother
      rw [List.idxOf_cons_self, List.idxOf_cons_ne rest (hne other hother).symm]
      exact Nat.succ_pos _

instance : Std.Irrefl template.RefersBefore := ⟨fun _ => Nat.lt_irrefl _⟩

instance : Std.Antisymm template.RefersBefore := ⟨fun _ _ h h' => absurd h (Nat.lt_asymm h')⟩

/-- The names without a value are known by their order. -/
theorem eq_missing_iff {names : List String} :
    names = template.missing lookup ↔
      (∀ name, name ∈ names ↔ name ∈ template.references ∧ lookup name = none) ∧
        names.Pairwise template.RefersBefore := by
  have hordered : (template.missing lookup).Pairwise template.RefersBefore :=
    pairwise_eraseDups_filter _ _
  constructor
  · rintro rfl
    exact ⟨fun name => mem_missing_iff, hordered⟩
  · rintro ⟨hunbound, hnames⟩
    exact hnames.eq_of_mem_iff hordered fun name => (hunbound name).trans mem_missing_iff.symm

theorem missing_eq_nil_iff :
    template.missing lookup = [] ↔ ∀ name ∈ template.references, lookup name ≠ none := by
  rw [List.eq_nil_iff_forall_not_mem]
  simp only [mem_missing_iff, not_and]

/-! ## The texts of the segments -/

theorem filled_of_gives {texts : List String} (h : List.Forall₂ (Gives lookup) segments texts) :
    (∀ name ∈ segments.filterMap referredName?, ∃ text, (lookup name).bind Value.keyText? = some text) ∧
      String.join texts = filled lookup segments := by
  induction h with
  | nil => exact ⟨nofun, rfl⟩
  | @cons segment found rest texts hgives _ ih =>
    obtain ⟨htexts, hjoin⟩ := ih
    rw [String.join_cons, hjoin]
    cases hgives with
    | literal => exact ⟨htexts, rfl⟩
    | @reference name value _ hvalue hwritten =>
      have htext : (lookup name).bind Value.keyText? = some found := by
        rw [hvalue]
        exact Value.keyText?_eq_some_iff.2 hwritten
      refine ⟨List.forall_mem_cons.2 ⟨⟨found, htext⟩, htexts⟩, ?_⟩
      rw [filled, textOf, htext, Option.getD_some]

theorem exists_gives
    (h : ∀ name ∈ segments.filterMap referredName?, ∃ text, (lookup name).bind Value.keyText? = some text) :
    ∃ texts, List.Forall₂ (Gives lookup) segments texts := by
  induction segments with
  | nil => exact ⟨[], .nil⟩
  | cons segment rest ih =>
    cases segment with
    | literal text =>
      obtain ⟨texts, htexts⟩ := ih h
      exact ⟨_, .cons (.literal text) htexts⟩
    | reference name =>
      obtain ⟨⟨text, htext⟩, hmore⟩ := List.forall_mem_cons.1 h
      obtain ⟨texts, htexts⟩ := ih hmore
      obtain ⟨value, hvalue, hshown⟩ := Option.bind_eq_some_iff.1 htext
      exact ⟨_, .cons (.reference hvalue (Value.keyText?_eq_some_iff.1 hshown)) htexts⟩

/-- A template resolves to a key exactly if the key is the texts that its segments give. -/
theorem resolve_eq_ok_iff_gives {key : String} :
    template.resolve lookup = .ok key ↔
      ∃ texts, List.Forall₂ (Gives lookup) template.segments texts ∧ key = String.join texts := by
  rw [resolve_eq_ok_iff]
  constructor
  · rintro ⟨htexts, rfl⟩
    obtain ⟨texts, hgives⟩ := exists_gives htexts
    exact ⟨texts, hgives, (filled_of_gives hgives).2.symm⟩
  · rintro ⟨texts, hgives, rfl⟩
    exact filled_of_gives hgives

/-! ## Failures -/

/-- Substituting fails with the first reference that has no text. -/
theorem substitute_eq_error_iff {text : String} {failure : Failure} :
    substitute text lookup segments = .error failure ↔
      FailsFirst (fun name => valueText text name (lookup name)) (segments.filterMap referredName?)
        failure := by
  induction segments with
  | nil =>
    refine iff_of_false ?_ not_failsFirst_nil
    intro h
    cases h
  | cons segment rest ih =>
    cases segment with
    | literal literal =>
      rw [substitute, List.filterMap_cons_none rfl, ← ih]
      cases substitute text lookup rest <;> simp [bind, Except.bind]
    | reference name =>
      have hnames : (Segment.reference name :: rest).filterMap referredName? =
          name :: rest.filterMap referredName? := rfl
      rw [substitute, hnames, failsFirst_cons_iff, ← ih]
      cases valueText text name (lookup name) with
      | error cause => simp [bind, Except.bind]
      | ok found => cases substitute text lookup rest <;> simp [bind, Except.bind]

/-- A name has a text exactly if it has a scalar. -/
theorem exists_text_iff {name : String} :
    (∃ text, (lookup name).bind Value.keyText? = some text) ↔
      ∃ value, lookup name = some value ∧ value.kind ∈ Value.scalarKinds := by
  simp only [Option.bind_eq_some_iff, Value.kind_mem_scalarKinds_iff]
  constructor
  · rintro ⟨text, value, hvalue, htext⟩
    exact ⟨value, hvalue, text, htext⟩
  · rintro ⟨value, hvalue, text, htext⟩
    exact ⟨text, value, hvalue, htext⟩

theorem exists_valueText_iff {text name : String} :
    (∃ found, valueText text name (lookup name) = .ok found) ↔
      ∃ value, lookup name = some value ∧ value.kind ∈ Value.scalarKinds := by
  simp only [valueText_eq_ok_iff]
  exact exists_text_iff

/-- A reference to a name with a value fails if the value is no scalar. -/
theorem valueText_eq_error_iff {text name : String} {value : Value} {failure : Failure} :
    valueText text name (some value) = .error failure ↔
      value.kind ∉ Value.scalarKinds ∧ failure = .unsupportedValue text name value.kind := by
  rw [Value.kind_mem_scalarKinds_iff, valueText]
  cases value.keyText? with
  | none => simp [eq_comm]
  | some shown => simp

theorem resolve_of_bound (h : ∀ name ∈ template.references, lookup name ≠ none) :
    template.resolve lookup = substitute template.text lookup template.segments := by
  rw [resolve, missing_eq_nil_iff.2 h]

theorem resolve_of_unbound (h : template.missing lookup ≠ []) :
    template.resolve lookup = .error (.missingReferences template.text (template.missing lookup)) := by
  rw [resolve]
  split
  · rename_i hnil
    exact absurd hnil h
  · rfl

/-- Resolving has one of its outcomes. -/
theorem outcome_resolve (template : Template) (lookup : String → Option Value) :
    template.Outcome lookup (template.resolve lookup) := by
  by_cases hbound : ∀ name ∈ template.references, lookup name ≠ none
  · cases hresult : template.resolve lookup with
    | ok key =>
      obtain ⟨texts, hgives, rfl⟩ := resolve_eq_ok_iff_gives.1 hresult
      exact .key texts hgives
    | error failure =>
      rw [resolve_of_bound hbound, substitute_eq_error_iff] at hresult
      obtain ⟨front, name, back, hcut, hfront, hfails⟩ := hresult
      have hname : name ∈ template.references := by
        rw [references, hcut]
        exact List.mem_append_right front List.mem_cons_self
      obtain ⟨value, hvalue⟩ := Option.ne_none_iff_exists'.1 (hbound name hname)
      dsimp only at hfails
      rw [hvalue, valueText_eq_error_iff] at hfails
      obtain ⟨hkind, rfl⟩ := hfails
      refine .unsupported front back name value hbound hcut ?_ hvalue hkind
      exact fun other hother => exists_valueText_iff.1 (hfront other hother)
  -- A name without a value decides the outcome, whatever values the other names have.
  · have hmissing : template.missing lookup ≠ [] := fun hnil => hbound (missing_eq_nil_iff.1 hnil)
    obtain ⟨hunbound, hordered⟩ := eq_missing_iff.1 rfl
    rw [resolve_of_unbound hmissing]
    exact .missing _ hmissing hunbound hordered

/-- **The outcome is exact.** A template and a look-up have one outcome, and resolving gives it. -/
theorem resolve_eq_iff {result : Except Failure String} :
    template.resolve lookup = result ↔ template.Outcome lookup result := by
  constructor
  · rintro rfl
    exact outcome_resolve template lookup
  · intro h
    cases h with
    | key texts hgives => exact resolve_eq_ok_iff_gives.2 ⟨texts, hgives, rfl⟩
    | missing names hnonempty hunbound hordered =>
      obtain rfl := eq_missing_iff.2 ⟨hunbound, hordered⟩
      exact resolve_of_unbound hnonempty
    | unsupported front back name value hbound hcut hfront hvalue hkind =>
      rw [resolve_of_bound hbound, substitute_eq_error_iff]
      refine ⟨front, name, back, hcut, fun other hother => exists_valueText_iff.2 (hfront other hother), ?_⟩
      dsimp only
      rw [hvalue, valueText_eq_error_iff]
      exact ⟨hkind, rfl⟩

/-- A template gives a key exactly if every reference has a scalar. -/
theorem exists_resolve_iff :
    (∃ key, template.resolve lookup = .ok key) ↔
      ∀ name ∈ template.references, ∃ value, lookup name = some value ∧ value.kind ∈ Value.scalarKinds := by
  simp only [resolve_eq_ok_iff, exists_text_iff]
  constructor
  · rintro ⟨key, hscalars, -⟩
    exact hscalars
  · intro hscalars
    exact ⟨_, hscalars, rfl⟩

/-- A template fails with the names without a value exactly if there is one. -/
theorem exists_missing_iff :
    (∃ text names, template.resolve lookup = .error (.missingReferences text names)) ↔
      ∃ name ∈ template.references, lookup name = none := by
  constructor
  · rintro ⟨text, names, hfails⟩
    cases resolve_eq_iff.1 hfails with
    | missing _ hnonempty hunbound _ =>
      obtain ⟨name, hname⟩ := List.exists_mem_of_ne_nil _ hnonempty
      exact ⟨name, (hunbound name).1 hname⟩
  · rintro ⟨name, hname, hnone⟩
    exact ⟨_, _, resolve_of_unbound fun hnil => missing_eq_nil_iff.1 hnil name hname hnone⟩

end Template

end SingleTable
