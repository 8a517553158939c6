import SingleTable.Template.Basic

/-!
# Filled templates

A template reads its look-up at its references only (`resolve_congr`), and it resolves only if each of them
has a value (`isSome_of_resolve`). The key that a template gives is its text with the texts of a look-up in the
place of the references (`resolve_eq_ok_iff`). Cut at the first reference to a name, the key has a front that
does not depend on the name, the text of the name, and a rest in which the name may occur again
(`filled_segments`).
-/

set_option autoImplicit false

namespace SingleTable

namespace Template

variable {template : Template} {lookup lookup' : String → Option Value} {segments : List Segment}
  {name : String}

/-! ## What a template reads -/

theorem missing_congr (h : ∀ name ∈ template.references, lookup name = lookup' name) :
    template.missing lookup = template.missing lookup' := by
  rw [missing, missing]
  congr 1
  apply List.filter_congr
  intro name hname
  rw [h name hname]

theorem substitute_congr (text : String) {segments : List Segment}
    (h : ∀ name ∈ segments.filterMap referredName?, lookup name = lookup' name) :
    substitute text lookup segments = substitute text lookup' segments := by
  induction segments with
  | nil => rfl
  | cons segment rest ih =>
    cases segment with
    | literal literal =>
      have hrest := ih h
      rw [substitute, substitute, hrest]
    | reference name =>
      have hname : lookup name = lookup' name := h name (List.mem_cons_self ..)
      have hrest := ih fun other hother => h other (List.mem_cons_of_mem _ hother)
      rw [substitute, substitute, hname, hrest]

/-- Look-ups that agree on the references of a template give the same key or the same failure. -/
theorem resolve_congr (h : ∀ name ∈ template.references, lookup name = lookup' name) :
    template.resolve lookup = template.resolve lookup' := by
  rw [resolve, resolve, missing_congr h, substitute_congr template.text h]

/-- A template that gives a key has a value for each of its references. -/
theorem isSome_of_resolve {key : String} (h : template.resolve lookup = .ok key) {name : String}
    (hname : name ∈ template.references) : ∃ value, lookup name = some value := by
  rw [resolve] at h
  split at h
  · rename_i hmissing
    cases hvalue : lookup name with
    | some value => exact ⟨value, rfl⟩
    | none =>
      have hmem : name ∈ template.missing lookup := by
        rw [missing, List.mem_eraseDups, List.mem_filter]
        exact ⟨hname, by rw [hvalue, Option.isNone_none]⟩
      rw [hmissing] at hmem
      cases hmem
  · cases h

/-! ## Filling -/

/-- The text of a name in a look-up, empty if it has none. -/
def textOf (lookup : String → Option Value) (name : String) : String :=
  ((lookup name).bind Value.keyText?).getD ""

/-- Segments with the texts of a look-up in the place of the references. -/
def filled (lookup : String → Option Value) : List Segment → String
  | [] => ""
  | .literal text :: rest => text ++ filled lookup rest
  | .reference name :: rest => textOf lookup name ++ filled lookup rest

theorem filled_append (lookup : String → Option Value) (front back : List Segment) :
    filled lookup (front ++ back) = filled lookup front ++ filled lookup back := by
  induction front with
  | nil => rw [List.nil_append, filled, String.empty_append]
  | cons segment rest ih =>
    cases segment with
    | literal text => rw [List.cons_append, filled, ih, filled, String.append_assoc]
    | reference name => rw [List.cons_append, filled, ih, filled, String.append_assoc]

/-- Look-ups that agree on the references fill segments with the same texts. -/
theorem filled_congr (h : ∀ name ∈ segments.filterMap referredName?, lookup name = lookup' name) :
    filled lookup segments = filled lookup' segments := by
  induction segments with
  | nil => rfl
  | cons segment rest ih =>
    cases segment with
    | literal text => rw [filled, filled, ih h]
    | reference name =>
      have hname : lookup name = lookup' name := h name List.mem_cons_self
      rw [filled, filled, textOf, textOf, hname, ih fun other hother => h other (List.mem_cons_of_mem _ hother)]

/-! ## Resolving -/

theorem valueText_eq_ok_iff {text name found : String} {value : Option Value} :
    valueText text name value = .ok found ↔ value.bind Value.keyText? = some found := by
  cases value with
  | none => simp [valueText]
  | some value =>
    rw [valueText, Option.bind_some]
    cases hshown : value.keyText? with
    | none => simp
    | some shown => simp

/-- Substituting succeeds if each reference has a text, and fills the segments. -/
theorem substitute_eq_ok_iff {text key : String} :
    substitute text lookup segments = .ok key ↔
      (∀ name ∈ segments.filterMap referredName?, ∃ found, (lookup name).bind Value.keyText? = some found) ∧
        key = filled lookup segments := by
  induction segments generalizing key with
  | nil =>
    rw [substitute, filled]
    simp [eq_comm]
  | cons segment rest ih =>
    cases segment with
    | literal literal =>
      rw [substitute, filled, bind_eq_ok_iff]
      constructor
      · rintro ⟨more, hmore, hkey⟩
        cases hkey
        obtain ⟨htexts, rfl⟩ := ih.1 hmore
        exact ⟨htexts, rfl⟩
      · rintro ⟨htexts, rfl⟩
        exact ⟨_, ih.2 ⟨htexts, rfl⟩, rfl⟩
    | reference name =>
      rw [substitute, filled, bind_eq_ok_iff]
      constructor
      · rintro ⟨found, hfound, hrest⟩
        obtain ⟨more, hmore, hkey⟩ := bind_eq_ok_iff.1 hrest
        cases hkey
        rw [valueText_eq_ok_iff] at hfound
        obtain ⟨htexts, rfl⟩ := ih.1 hmore
        refine ⟨?_, by rw [textOf, hfound, Option.getD_some]⟩
        intro other hother
        rcases List.mem_cons.1 hother with rfl | hrest
        · exact ⟨found, hfound⟩
        · exact htexts other hrest
      · rintro ⟨htexts, rfl⟩
        obtain ⟨found, hfound⟩ := htexts name List.mem_cons_self
        refine ⟨found, valueText_eq_ok_iff.2 hfound, ?_⟩
        rw [bind_eq_ok_iff]
        refine ⟨_, ih.2 ⟨fun other hother => htexts other (List.mem_cons_of_mem _ hother), rfl⟩, ?_⟩
        rw [textOf, hfound, Option.getD_some]

/-- **A template gives a key** exactly if each reference has a text, and the key is the filled template. -/
theorem resolve_eq_ok_iff {key : String} :
    template.resolve lookup = .ok key ↔
      (∀ name ∈ template.references, ∃ found, (lookup name).bind Value.keyText? = some found) ∧
        key = filled lookup template.segments := by
  rw [resolve]
  split
  · exact substitute_eq_ok_iff
  · rename_i hmissing
    constructor
    · intro h
      cases h
    -- Every name with a text has a value, so no name would be missing.
    · rintro ⟨htexts, -⟩
      have hnone : (template.references.filter fun name => (lookup name).isNone) = [] := by
        rw [List.filter_eq_nil_iff]
        intro name hname
        obtain ⟨found, hfound⟩ := htexts name hname
        obtain ⟨value, hvalue, -⟩ := Option.bind_eq_some_iff.1 hfound
        simp [hvalue]
      refine absurd ?_ hmissing
      rw [missing, hnone]
      rfl

/-! ## The first reference to a name -/

/-- The segments in front of the first reference to a name. -/
def before (template : Template) (name : String) : List Segment :=
  template.segments.takeWhile (· ≠ .reference name)

/-- The segments behind the first reference to a name. -/
def behind (template : Template) (name : String) : List Segment :=
  (template.segments.dropWhile (· ≠ .reference name)).tail

/-- The rest of a key, behind the first reference to a name. -/
def rest (template : Template) (name : String) (lookup : String → Option Value) : String :=
  filled lookup (template.behind name)

theorem segments_eq (h : template.refersTo name = true) :
    template.segments = template.before name ++ .reference name :: template.behind name := by
  have hmem : .reference name ∈ template.segments := by
    obtain ⟨segment, hsegment, hname⟩ := List.mem_filterMap.1 (List.contains_iff_mem.1 h)
    cases segment with
    | literal text => cases hname
    | reference other =>
      cases hname
      exact hsegment
  rw [before, behind]
  generalize template.segments = segments at hmem
  induction segments with
  | nil => cases hmem
  | cons segment rest ih =>
    by_cases hsegment : segment = .reference name
    · subst hsegment
      simp
    · have hrest := ih ((List.mem_cons.1 hmem).resolve_left fun heq => hsegment heq.symm)
      rw [List.takeWhile_cons, List.dropWhile_cons, if_pos (decide_eq_true hsegment),
        if_pos (decide_eq_true hsegment), List.cons_append, ← hrest]

/-- Nothing in front of the first reference refers to the name. -/
theorem ne_of_mem_before {other : String} (h : other ∈ (template.before name).filterMap referredName?) :
    other ≠ name := by
  rintro rfl
  obtain ⟨segment, hsegment, hname⟩ := List.mem_filterMap.1 h
  cases segment with
  | literal text => cases hname
  | reference found =>
    cases hname
    have hne := List.all_eq_true.1 (List.all_takeWhile (l := template.segments)) _ hsegment
    simp at hne

/-- The key of a template that refers to a name, cut at the first reference to it. -/
theorem filled_segments (h : template.refersTo name = true) (lookup : String → Option Value) :
    filled lookup template.segments =
      filled lookup (template.before name) ++ (textOf lookup name ++ template.rest name lookup) := by
  have hfilled := congrArg (filled lookup) (segments_eq h)
  rwa [filled_append, filled] at hfilled

end Template

end SingleTable
