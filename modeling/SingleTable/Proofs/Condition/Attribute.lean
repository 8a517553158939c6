import SingleTable.Proofs.Condition.Shown
import SingleTable.Proofs.Condition.TestText

/-!
# The attribute that a test is about

The attribute of a leaf is read off its text: it is the name behind the only name token, if there is only one.
For the leaf of a test this is the name of a step of the target whose token is the only one that the target
and the placeholders show (`attribute?_leaf_iff`). So the attribute of a plain test is the name that all of
its steps have in common, if there is one (`showsOnly_iff_of_plain`), and the target need not be an attribute
of the top level. When its token is renamed, the operand becomes the bare new token exactly if the target is
not nested (`renameToken_operand_iff`).
-/

set_option autoImplicit false

namespace SingleTable

/-- A list without its repetitions has one item exactly if all items are the same. -/
theorem eraseDups_eq_singleton_iff {α : Type} [BEq α] [LawfulBEq α] {items : List α} {item : α} :
    items.eraseDups = [item] ↔ item ∈ items ∧ ∀ other ∈ items, other = item := by
  constructor
  · intro h
    have hmem : ∀ other, other ∈ items ↔ other = item := by
      intro other
      rw [← List.mem_eraseDups, h, List.mem_singleton]
    exact ⟨(hmem item).2 rfl, fun other hother => (hmem other).1 hother⟩
  · rintro ⟨hitem, hall⟩
    cases items with
    | nil => cases hitem
    | cons first rest =>
      have hfirst := hall first List.mem_cons_self
      -- Nothing is left when the copies of the first item are removed.
      have hrest : rest.filter (fun other => !other == first) = [] := by
        rw [List.filter_eq_nil_iff]
        intro other hother
        simp [hfirst, hall other (List.mem_cons_of_mem _ hother)]
      rw [List.eraseDups_cons, hrest, hfirst]
      rfl

/-- The attribute of a leaf is what its only name token stands for. -/
theorem Leaf.attribute?_eq_some_iff {leaf : Leaf} {name : String} :
    leaf.attribute? = some name ↔ ∃ token ∈ shown .name leaf.text,
      (∀ other ∈ shown .name leaf.text, other = token) ∧ leaf.names.get? token = some name := by
  rw [attribute?, shown_name]
  constructor
  · intro h
    split at h
    · rename_i token htoken
      obtain ⟨hmem, hall⟩ := eraseDups_eq_singleton_iff.1 htoken
      exact ⟨token, hmem, hall, h⟩
    · cases h
  · rintro ⟨token, hmem, hall, hname⟩
    rw [eraseDups_eq_singleton_iff.2 ⟨hmem, hall⟩]
    exact hname

/-! ## Names that are one token -/

/-- A name that is one token in an expression. -/
structure IsTokenName (name : String) : Prop where
  /-- The name is not empty. -/
  nonempty : name ≠ ""
  /-- Nothing in the name ends a token. -/
  chars : ∀ c ∈ name.toList, isTokenChar c = true

instance (name : String) : Decidable (IsTokenName name) :=
  have : Decidable (∀ c ∈ name.toList, isTokenChar c = true) := List.decidableBAll _ _
  decidable_of_iff (name ≠ "" ∧ ∀ c ∈ name.toList, isTokenChar c = true)
    ⟨fun h => ⟨h.1, h.2⟩, fun h => ⟨h.nonempty, h.chars⟩⟩

theorem IsPlainName.isTokenName {name : String} (h : IsPlainName name) : IsTokenName name :=
  ⟨h.nonempty, fun c hc => (h.chars c hc).1⟩

/-- The name behind a shown token is one token. -/
theorem isTokenName_of_mem {name text : String} (h : nameToken name ∈ shown .name text) : IsTokenName name := by
  obtain ⟨run, heq, hne, hrun⟩ := exists_run_of_mem h
  have hname : name.toList = run := by
    have hlists := congrArg String.toList heq
    rw [String.toList_ofList] at hlists
    exact (List.cons.inj (String.toList_append.symm.trans hlists)).2
  refine ⟨?_, fun c hc => hrun c (hname ▸ hc)⟩
  rintro rfl
  exact hne hname.symm

/-- A token that is renamed becomes the new one. -/
theorem IsTokenName.renameToken {name : String} (h : IsTokenName name) (new : String) :
    renameToken (nameToken name) (nameToken name) new = new := by
  have hlist : (nameToken name).toList = '#' :: name.toList := String.toList_append
  have htake : name.toList.takeWhile isTokenChar = name.toList := List.takeWhile_eq_self_iff.2 h.chars
  have hdrop : name.toList.dropWhile isTokenChar = [] := List.dropWhile_eq_nil_iff.2 h.chars
  have hne : name.toList ≠ [] := by simpa using h.nonempty
  -- The token is the only piece of its text.
  have hpieces : pieces (nameToken name).toList = [.token name.toList] := by
    rw [hlist, pieces, htake, hdrop, if_pos ⟨rfl, by simpa using hne⟩, pieces]
  have htoken : (Piece.token name.toList).token? = some (nameToken name) := by
    rw [Piece.token?, ← hlist, String.ofList_toList]
  rw [SingleTable.renameToken, hpieces, List.flatMap_singleton, (renamed_of_token new htoken).2,
    String.ofList_toList]

/-! ## Tests about one name -/

/-- A test shows the token of one name only, which is that of a step of its target. -/
structure Test.ShowsOnly (test : Test) (next : Nat) (name : String) : Prop where
  /-- A step of the target has the name. -/
  step : ∃ step ∈ test.target.steps, step.name = name
  /-- The name is one token. -/
  token : IsTokenName name
  /-- The target shows no other token. -/
  target : ∀ token ∈ shown .name test.target.operand.text, token = nameToken name
  /-- The placeholders show no other token. -/
  placeholders : ∀ bound ∈ test.bound next, ∀ token ∈ shown .name bound.1, token = nameToken name

section Tests

variable {test : Test} {next : Nat} {name : String}

/-- The operand of a handle shows the tokens of the names of its steps. -/
theorem nameToken_mem_shown_operand {handle : Handle} {step : PathStep} (hstep : step ∈ handle.steps)
    (htoken : IsTokenName step.name) : nameToken step.name ∈ shown .name handle.operand.text := by
  rw [shown_operand, List.mem_flatMap]
  refine ⟨step, hstep, List.mem_append_left _ ?_⟩
  rw [shown_nameToken htoken.nonempty htoken.chars]
  exact List.mem_singleton_self _

/-- **The attribute of the leaf of a test** is the name whose token is the only one that the test shows. -/
theorem attribute?_leaf_iff (hvoid : test.isVoid = false) :
    (test.leaf next).attribute? = some name ↔ test.ShowsOnly next name := by
  have hget : ∀ token, (Dict.ofList test.target.operand.names).get? token = some name ↔
      token = nameToken name ∧ ∃ step ∈ test.target.steps, step.name = name := by
    intro token
    rw [← mem_names_iff]
    apply Dict.get?_ofList_iff
    intro v w
    exact eq_of_mem_names
  rw [Leaf.attribute?_eq_some_iff, names_leaf hvoid, shown_leaf hvoid]
  constructor
  · rintro ⟨token, hmem, hall, hname⟩
    -- A leaf binds only the names of the steps of its target.
    obtain ⟨rfl, hstep⟩ := (hget token).1 hname
    rw [← shown_leaf hvoid] at hmem
    refine ⟨hstep, isTokenName_of_mem hmem, ?_, ?_⟩
    · intro token htoken
      exact hall token (List.mem_append_left _ htoken)
    · intro bound hbound token htoken
      apply hall token
      apply List.mem_append_right
      exact List.mem_flatMap.2 ⟨bound.1, List.mem_map_of_mem hbound, htoken⟩
  · rintro ⟨⟨step, hstep, rfl⟩, htoken, htarget, hplaceholders⟩
    refine ⟨nameToken step.name, ?_, ?_, (hget _).2 ⟨rfl, step, hstep, rfl⟩⟩
    · exact List.mem_append_left _ (nameToken_mem_shown_operand hstep htoken)
    · intro other hother
      rcases List.mem_append.1 hother with hother | hother
      · exact htarget other hother
      · obtain ⟨placeholder, hmem, hshown⟩ := List.mem_flatMap.1 hother
        obtain ⟨bound, hbound, rfl⟩ := List.mem_map.1 hmem
        exact hplaceholders bound hbound other hshown

/-- A plain test is about the name that all steps of its target have. -/
theorem showsOnly_iff_of_plain (h : test.target.IsPlain) :
    test.ShowsOnly next name ↔ ∀ step ∈ test.target.steps, step.name = name := by
  constructor
  · intro honly step hstep
    have hmem := nameToken_mem_shown_operand hstep (h.of_mem_steps hstep).name.isTokenName
    exact nameToken_inj (honly.target _ hmem)
  · intro hall
    obtain ⟨step, hstep⟩ := List.exists_mem_of_ne_nil _ test.target.steps_ne_nil
    have hname := hall step hstep
    refine ⟨⟨step, hstep, hname⟩, hname ▸ (h.of_mem_steps hstep).name.isTokenName, ?_, ?_⟩
    · intro token htoken
      rw [h.shown_name_operand] at htoken
      obtain ⟨⟨token, found⟩, hmem, rfl⟩ := List.mem_map.1 htoken
      obtain ⟨rfl, other, hother, rfl⟩ := mem_names_iff.1 hmem
      dsimp only
      rw [hall other hother]
    -- The placeholders of a plain test show no name.
    · intro bound hbound token htoken
      have hnone := List.flatMap_eq_nil_iff.1 (shown_bound h.name next).1 bound.1 (List.mem_map_of_mem hbound)
      rw [hnone] at htoken
      cases htoken

end Tests

/-! ## Nested targets -/

/-- A handle reaches into its attribute: it has several steps, or indexes behind a step. -/
def Handle.IsNested (handle : Handle) : Prop :=
  1 < handle.steps.length ∨ ∃ step ∈ handle.steps, step.indexes ≠ ""

instance (handle : Handle) : Decidable handle.IsNested :=
  inferInstanceAs (Decidable (_ ∨ _))

section Nested

variable {handle : Handle} {name new : String}

/-- An attribute of the top level is not nested. -/
theorem Handle.not_isNested_of_no_path (h : handle.path = none) : ¬ handle.IsNested := by
  rw [IsNested, steps_of_no_path h]
  simp

/-- A text that starts outside of a token does not vanish when a token is renamed. -/
theorem renameToken_ne_empty {text old : String} (hne : text ≠ "") (h : Stops text.toList) :
    renameToken text old new ≠ "" := by
  cases hlist : text.toList with
  | nil => exact absurd (String.toList_eq_nil_iff.1 hlist) hne
  | cons c rest =>
    -- The first character starts no token, so it is a piece of its own and stays.
    have hmark : c ≠ '#' := by
      rintro rfl
      have hfalse := h '#' (by rw [hlist]; rfl)
      revert hfalse
      decide +kernel
    rw [renameToken, hlist, pieces, if_neg fun hboth => hmark hboth.1, List.flatMap_cons]
    intro hempty
    have hnil := congrArg String.toList hempty
    simp [Piece.renamed, Piece.token?, Piece.text] at hnil

theorem length_le_intercalate (separator : String) {parts : List String} {part : String}
    (hpart : part ∈ parts) : part.length ≤ (separator.intercalate parts).length := by
  induction parts with
  | nil => cases hpart
  | cons first rest ih =>
    cases rest with
    | nil => rw [List.mem_singleton.1 hpart, String.intercalate_singleton]
    | cons next rest =>
      rw [String.intercalate_cons_cons, String.length_append, String.length_append]
      rcases List.mem_cons.1 hpart with rfl | hrest
      · omega
      · have hlength := ih hrest
        omega

/-- A list with a separator is longer than each of several parts. -/
theorem length_lt_intercalate {separator first second part : String} {rest : List String}
    (hseparator : 0 < separator.length) (hpart : part ∈ first :: second :: rest) :
    part.length < (separator.intercalate (first :: second :: rest)).length := by
  rw [String.intercalate_cons_cons, String.length_append, String.length_append]
  rcases List.mem_cons.1 hpart with rfl | hrest
  · omega
  · have hlength := length_le_intercalate separator hrest
    omega

/-- A step whose token is renamed starts with the new token. -/
theorem renameToken_step {step : PathStep} (hstep : step ∈ handle.steps) (htoken : IsTokenName step.name) :
    renameToken step.text (nameToken step.name) new =
      new ++ renameToken step.indexes (nameToken step.name) new := by
  rw [PathStep.text, renameToken_append (stops_indexes hstep), htoken.renameToken]

/-- **Renaming the name of a step** turns an operand into the bare new token only if the handle is not
nested. -/
theorem renameToken_operand_iff (hstep : ∃ step ∈ handle.steps, step.name = name) (htoken : IsTokenName name) :
    renameToken handle.operand.text (nameToken name) new = new ↔ ¬ handle.IsNested := by
  have hpoint : IsSeparator "." := by decide +kernel
  obtain ⟨step, hstep, rfl⟩ := hstep
  have hrenamed : renameToken step.text (nameToken step.name) new = _ := renameToken_step hstep htoken
  rw [Handle.operand_eq, Handle.IsNested]
  dsimp only
  rw [renameToken_intercalate hpoint, List.map_map]
  cases hsteps : handle.steps with
  | nil => exact absurd hsteps handle.steps_ne_nil
  | cons first rest =>
    rw [hsteps] at hstep
    cases rest with
    -- One step becomes the new token with the renamed indexes behind it.
    | nil =>
      obtain rfl := List.mem_singleton.1 hstep
      rw [List.map_singleton, String.intercalate_singleton, Function.comp_apply, hrenamed,
        String.append_eq_left_iff]
      constructor
      · rintro hempty (hlength | ⟨other, hother, hindexes⟩)
        · exact absurd hlength (by simp)
        · obtain rfl := List.mem_singleton.1 hother
          apply renameToken_ne_empty hindexes _ hempty
          exact stops_indexes (hsteps ▸ hstep)
      · intro hnot
        by_cases hindexes : step.indexes = ""
        · rw [hindexes, renameToken_empty]
        · exact absurd (Or.inr ⟨step, hstep, hindexes⟩) hnot
    -- Several steps are longer than the one that starts with the new token.
    | cons second rest =>
      have hseveral : 1 < (first :: second :: rest).length := by simp
      have hpoint : 0 < ".".length := by decide
      have hmem := List.mem_map_of_mem
        (f := (fun part => renameToken part (nameToken step.name) new) ∘ PathStep.text) hstep
      have hlength := length_lt_intercalate hpoint hmem
      constructor
      · intro heq
        rw [List.map_cons, List.map_cons] at heq
        rw [heq, Function.comp_apply, hrenamed, String.length_append] at hlength
        omega
      · intro hnot
        exact absurd (Or.inl hseveral) hnot

end Nested

end SingleTable
