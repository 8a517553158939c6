/-!
# The order of texts by their bytes

The table compares texts byte by byte, in UTF-8, and a text that is a beginning of another one comes first.
Texts behind one and the same beginning compare as they do alone (`append_lt_append_iff`). What follows two texts
does not count if they diverge, which means that none of them is a beginning of the other
(`append_lt_append_iff_of_diverge`).
-/

set_option autoImplicit false

namespace SingleTable

/-! ## Lists of bytes -/

section Lists

variable {front a b s t : List UInt8}

theorem append_lt_append_iff : front ++ a < front ++ b ↔ a < b := by
  induction front with
  | nil => rfl
  | cons byte rest ih => simp [ih]

/-- What follows two lists does not count if the first is smaller without being a beginning of the other. -/
theorem lt_append_of_lt (h : a < b) (hbegins : ¬ a <+: b) : a ++ s < b ++ t := by
  induction a generalizing b with
  | nil => exact absurd List.nil_prefix hbegins
  | cons byte rest ih =>
    cases b with
    | nil => exact absurd h (List.not_lt_nil _)
    | cons other more =>
      rw [List.cons_append, List.cons_append, List.cons_lt_cons_iff]
      rcases List.cons_lt_cons_iff.1 h with hlt | ⟨rfl, hrest⟩
      · exact Or.inl hlt
      · refine Or.inr ⟨rfl, ih hrest fun hmore => hbegins ?_⟩
        exact List.cons_prefix_cons.2 ⟨rfl, hmore⟩

/-- Lists that diverge are ordered by the first byte in which they differ. -/
theorem lt_or_lt_of_diverge (h : ¬ a <+: b) (h' : ¬ b <+: a) : a < b ∨ b < a := by
  induction a generalizing b with
  | nil => exact absurd List.nil_prefix h
  | cons byte rest ih =>
    cases b with
    | nil => exact absurd List.nil_prefix h'
    | cons other more =>
      rw [List.cons_lt_cons_iff, List.cons_lt_cons_iff]
      by_cases hsame : byte = other
      · subst hsame
        rw [List.cons_prefix_cons] at h h'
        rcases ih (fun hrest => h ⟨rfl, hrest⟩) (fun hmore => h' ⟨rfl, hmore⟩) with hlt | hlt
        · exact Or.inl (Or.inr ⟨rfl, hlt⟩)
        · exact Or.inr (Or.inr ⟨rfl, hlt⟩)
      · rcases UInt8.lt_or_lt_of_ne hsame with hlt | hlt
        · exact Or.inl (Or.inl hlt)
        · exact Or.inr (Or.inl hlt)

/-- What follows two lists that diverge does not count. -/
theorem append_lt_append_iff_of_diverge (h : ¬ a <+: b) (h' : ¬ b <+: a) : a ++ s < b ++ t ↔ a < b := by
  constructor
  · intro hlong
    rcases lt_or_lt_of_diverge h h' with hlt | hlt
    · exact hlt
    · exact absurd hlong (List.lt_asymm (lt_append_of_lt hlt h'))
  · intro hlt
    exact lt_append_of_lt hlt h

end Lists

/-! ## Texts -/

/-- The bytes of a text in UTF-8. -/
def bytes (text : String) : List UInt8 := text.toByteArray.data.toList

@[simp] theorem bytes_append (front back : String) : bytes (front ++ back) = bytes front ++ bytes back := by
  rw [bytes, String.toByteArray_append, ByteArray.data_append, Array.toList_append]
  rfl

theorem bytes_inj {a b : String} : bytes a = bytes b ↔ a = b := by
  rw [bytes, bytes, Array.toList_inj, ← ByteArray.ext_iff, String.toByteArray_inj]

/-- None of two texts is a beginning of the other. -/
def Diverge (a b : String) : Prop := ¬ bytes a <+: bytes b ∧ ¬ bytes b <+: bytes a

instance (a b : String) : Decidable (Diverge a b) := inferInstanceAs (Decidable (_ ∧ _))

end SingleTable
