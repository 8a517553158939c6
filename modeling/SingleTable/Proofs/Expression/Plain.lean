import SingleTable.Expression.Handle
import SingleTable.Expression.NameToken
import SingleTable.Proofs.Text.Balance

/-!
# Plain names

Names whose tokens and placeholders can be told from the text around them: they are not empty and contain no
blank, no mark and none of the signs that paths and lists are written with. A handle is plain if its name is
and if its path consists of plain names with list indexes.
-/

set_option autoImplicit false

namespace SingleTable

/-- A character of plain names: it can stand in a name token and is no mark. -/
def IsPlainChar (c : Char) : Prop := isTokenChar c = true ∧ c ≠ '#' ∧ c ≠ ':'

instance (c : Char) : Decidable (IsPlainChar c) := inferInstanceAs (Decidable (_ ∧ _ ∧ _))

/-- A name whose tokens and placeholders can be told from the text around them. -/
structure IsPlainName (name : String) : Prop where
  /-- The name is not empty. -/
  nonempty : name ≠ ""
  /-- The name has plain characters only. -/
  chars : ∀ c ∈ name.toList, IsPlainChar c

instance (name : String) : Decidable (IsPlainName name) :=
  have : Decidable (∀ c ∈ name.toList, IsPlainChar c) := List.decidableBAll _ _
  decidable_of_iff (name ≠ "" ∧ ∀ c ∈ name.toList, IsPlainChar c)
    ⟨fun h => ⟨h.1, h.2⟩, fun h => ⟨h.nonempty, h.chars⟩⟩

/-- A step of a path that is a plain name with list indexes. -/
structure PathStep.IsPlain (step : PathStep) : Prop where
  /-- The name is plain. -/
  name : IsPlainName step.name
  /-- What follows are numbers in brackets. -/
  indexes : ∀ c ∈ step.indexes.toList, c = '[' ∨ c = ']' ∨ c.isDigit = true

instance (step : PathStep) : Decidable step.IsPlain :=
  have : Decidable (∀ c ∈ step.indexes.toList, c = '[' ∨ c = ']' ∨ c.isDigit = true) :=
    List.decidableBAll _ _
  decidable_of_iff (IsPlainName step.name ∧ ∀ c ∈ step.indexes.toList, c = '[' ∨ c = ']' ∨ c.isDigit = true)
    ⟨fun h => ⟨h.1, h.2⟩, fun h => ⟨h.name, h.indexes⟩⟩

/-- The text of a step in an operand. -/
def PathStep.text (step : PathStep) : String := nameToken step.name ++ step.indexes

/-- The steps of a handle, those of its path or its name alone. -/
def Handle.steps (handle : Handle) : List PathStep :=
  match handle.path with
  | none => [⟨handle.name, ""⟩]
  | some path => pathSteps path

/-- A handle without a path has one step, which is its name. -/
theorem Handle.steps_of_no_path {handle : Handle} (h : handle.path = none) :
    handle.steps = [⟨handle.name, ""⟩] := by
  rw [steps, h]

/-- The operand of a handle consists of its steps. -/
theorem Handle.operand_eq (handle : Handle) :
    handle.operand = ⟨".".intercalate (handle.steps.map PathStep.text),
      handle.steps.map fun step => (nameToken step.name, step.name)⟩ := by
  cases hpath : handle.path with
  | none => simp [operand, steps, hpath, PathStep.text]
  | some path =>
    rw [operand, steps, hpath]
    rfl

/-- A handle of plain names. -/
structure Handle.IsPlain (handle : Handle) : Prop where
  /-- The name is plain. -/
  name : IsPlainName handle.name
  /-- The steps of the path are plain. -/
  steps : ∀ path, handle.path = some path → ∀ step ∈ pathSteps path, step.IsPlain

instance (handle : Handle) : Decidable handle.IsPlain :=
  decidable_of_iff (IsPlainName handle.name ∧ ∀ path ∈ handle.path, ∀ step ∈ pathSteps path, step.IsPlain)
    ⟨fun h => ⟨h.1, h.2⟩, fun h => ⟨h.name, h.steps⟩⟩

/-! ## Plain texts are flat -/

theorem IsPlainChar.inner {c : Char} (h : IsPlainChar c) : IsInner c := by
  obtain ⟨htoken, -, -⟩ := h
  constructor
  · rintro rfl
    exact absurd htoken (by decide)
  · rintro rfl
    exact absurd htoken (by decide)

/-- A digit is a plain character. -/
theorem isPlainChar_of_isDigit {c : Char} (h : c.isDigit = true) : IsPlainChar c := by
  have hother : ∀ d : Char, d.isDigit = false → c ≠ d := by
    rintro d hd rfl
    rw [h] at hd
    cases hd
  have hblank : Text.isBlank c = false := by
    have hrange : 48 ≤ c.toNat ∧ c.toNat ≤ 57 := by
      simpa [Char.isDigit, UInt32.le_iff_toNat_le] using h
    simp [Text.isBlank]
    omega
  refine ⟨?_, hother '#' (by decide), hother ':' (by decide)⟩
  simp [isTokenChar, hblank, hother '.' (by decide), hother '[' (by decide), hother ']' (by decide),
    hother '(' (by decide), hother ')' (by decide), hother ',' (by decide)]

/-- A text of plain characters. -/
def IsPlainText (text : String) : Prop := ∀ c ∈ text.toList, IsPlainChar c

instance (text : String) : Decidable (IsPlainText text) := List.decidableBAll _ _

theorem IsPlainText.append {front back : String} (hfront : IsPlainText front) (hback : IsPlainText back) :
    IsPlainText (front ++ back) := MadeOf.append hfront hback

theorem plain_toString (number : Nat) : IsPlainText (toString number) := by
  intro c hc
  rw [Nat.toString_eq_repr, Nat.toList_repr] at hc
  exact isPlainChar_of_isDigit (Nat.isDigit_of_mem_toDigits (by decide) (by decide) hc)

theorem IsPlainText.flat {text : String} (h : IsPlainText text) : IsFlat text :=
  fun c hc => (h c hc).inner

theorem IsPlainName.flat {name : String} (h : IsPlainName name) : IsFlat name :=
  IsPlainText.flat h.chars

/-- A character of operands, which are written with a few signs besides plain names. -/
def IsOperandChar (c : Char) : Prop := IsPlainChar c ∨ c ∈ ['#', '.', '[', ']']

instance (c : Char) : Decidable (IsOperandChar c) := inferInstanceAs (Decidable (_ ∨ _))

theorem IsOperandChar.of_plain_of_signs {p : Char → Prop} (hplain : ∀ c, IsPlainChar c → p c)
    (hsigns : p '#' ∧ p '.' ∧ p '[' ∧ p ']') {c : Char} (h : IsOperandChar c) : p c := by
  rcases h with h | h
  · exact hplain c h
  · simp only [List.mem_cons, List.not_mem_nil, or_false] at h
    obtain ⟨hhash, hpoint, hopen, hclose⟩ := hsigns
    rcases h with rfl | rfl | rfl | rfl <;> assumption

theorem PathStep.IsPlain.madeOf_text {step : PathStep} (h : step.IsPlain) :
    MadeOf IsOperandChar step.text := by
  have hmark : MadeOf IsOperandChar "#" := by decide +kernel
  have hname : MadeOf IsOperandChar step.name := fun c hc => Or.inl (h.name.chars c hc)
  refine (hmark.append hname).append ?_
  intro c hc
  rcases h.indexes c hc with rfl | rfl | hdigit
  · exact Or.inr (by decide)
  · exact Or.inr (by decide)
  · exact Or.inl (isPlainChar_of_isDigit hdigit)

/-- The steps of a plain handle are plain. -/
theorem Handle.IsPlain.of_mem_steps {handle : Handle} (h : handle.IsPlain) {step : PathStep}
    (hstep : step ∈ handle.steps) : step.IsPlain := by
  rw [Handle.steps] at hstep
  split at hstep
  · rw [List.mem_singleton.1 hstep]
    exact ⟨h.name, fun c hc => by cases hc⟩
  · rename_i path hpath
    exact h.steps path hpath step hstep

/-- The operand of a plain handle has plain characters and signs only. -/
theorem Handle.IsPlain.madeOf_operand {handle : Handle} (h : handle.IsPlain) :
    MadeOf IsOperandChar handle.operand.text := by
  have hpoint : MadeOf IsOperandChar "." := by decide +kernel
  rw [Handle.operand_eq]
  apply hpoint.intercalate
  intro part hpart
  obtain ⟨step, hstep, rfl⟩ := List.mem_map.1 hpart
  exact (h.of_mem_steps hstep).madeOf_text

/-- The operand of a plain handle has no parentheses. -/
theorem Handle.IsPlain.flat_operand {handle : Handle} (h : handle.IsPlain) :
    IsFlat handle.operand.text := by
  intro c hc
  exact (h.madeOf_operand c hc).of_plain_of_signs (fun _ => IsPlainChar.inner) (by decide)

/-! ## Operands start with a mark -/

theorem head?_append {front : String} {c : Char} (h : front.toList.head? = some c) (back : String) :
    (front ++ back).toList.head? = some c := by
  rw [String.toList_append, List.head?_append, h, Option.some_or]

theorem head?_nameToken (name : String) : (nameToken name).toList.head? = some '#' :=
  head?_append (by decide +kernel) name

theorem splitAtEvery_ne_nil (separator : Char) (chars : List Char) : splitAtEvery separator chars ≠ [] := by
  cases chars with
  | nil => exact List.cons_ne_nil _ _
  | cons c rest =>
    rw [splitAtEvery]
    split
    · exact List.cons_ne_nil _ _
    · split <;> exact List.cons_ne_nil _ _

/-- A handle has a step. -/
theorem Handle.steps_ne_nil (handle : Handle) : handle.steps ≠ [] := by
  rw [steps]
  split
  · exact List.cons_ne_nil _ _
  · rw [pathSteps]
    exact mt List.map_eq_nil_iff.1 (splitAtEvery_ne_nil _ _)

/-- The operand of a handle starts with a name token. -/
theorem head?_operand (handle : Handle) : handle.operand.text.toList.head? = some '#' := by
  obtain ⟨step, rest, hsteps⟩ := List.exists_cons_of_ne_nil handle.steps_ne_nil
  have hhead : step.text.toList.head? = some '#' := head?_append (head?_nameToken step.name) step.indexes
  rw [Handle.operand_eq, hsteps]
  dsimp only
  cases rest with
  | nil => rwa [List.map_singleton, String.intercalate_singleton]
  | cons next rest =>
    rw [List.map_cons, List.map_cons, String.intercalate_cons_cons, String.append_assoc]
    exact head?_append hhead _

end SingleTable
