import SingleTable.Condition.Test
import SingleTable.Proofs.Text.ByteOrder

/-!
# Tests on strings

What the tests that are answered from the order of keys say of a string (`LeafKind.Accepts`): the comparisons
and the range go by the order of bytes, and a beginning is a beginning of the bytes. A test says the same of
strings with a text written in front of all of them (`accepts_append_front_iff`), and a comparison says the
same of strings with any texts behind them, if the string and the operand diverge (`accepts_append_back_iff`).
-/

set_option autoImplicit false

namespace SingleTable

/-- What a comparison says of two strings. -/
def Comparison.Holds (comparison : Comparison) (a b : String) : Prop :=
  match comparison with
  | eq => a = b
  | ne => a ≠ b
  | lt => bytes a < bytes b
  | le => ¬ bytes b < bytes a
  | gt => bytes b < bytes a
  | ge => ¬ bytes a < bytes b

instance (comparison : Comparison) (a b : String) : Decidable (comparison.Holds a b) := by
  unfold Comparison.Holds
  split <;> infer_instance

/-- What a test that is answered from the order of keys says of a string. -/
def LeafKind.Accepts (kind : LeafKind) (operands : List String) (text : String) : Prop :=
  match kind, operands with
  | .compare comparison, [operand] => comparison.Holds text operand
  | .between, [low, high] => Comparison.ge.Holds text low ∧ Comparison.le.Holds text high
  | .beginsWith, [start] => bytes start <+: bytes text
  | _, _ => False

instance (kind : LeafKind) (operands : List String) (text : String) : Decidable (kind.Accepts operands text) := by
  unfold LeafKind.Accepts
  split <;> infer_instance

/-- A test that a string passes has an operand. -/
theorem LeafKind.Accepts.exists_operand {kind : LeafKind} {operands : List String} {text : String}
    (h : kind.Accepts operands text) : ∃ operand, operand ∈ operands := by
  cases operands with
  | nil => cases kind <;> cases h
  | cons operand rest => exact ⟨operand, List.mem_cons_self⟩

section Comparisons

variable {comparison : Comparison} {kind : LeafKind} {operands : List String} {a b a' b' : String}

/-- A comparison sees nothing of two strings but their order. -/
theorem holds_congr (hlt : bytes a < bytes b ↔ bytes a' < bytes b')
    (hgt : bytes b < bytes a ↔ bytes b' < bytes a') (heq : a = b ↔ a' = b') :
    comparison.Holds a b ↔ comparison.Holds a' b' := by
  cases comparison <;> simp only [Comparison.Holds, hlt, hgt, heq, ne_eq]

/-- A text in front of both strings does not count. -/
theorem holds_append_front_iff (front : String) :
    comparison.Holds (front ++ a) (front ++ b) ↔ comparison.Holds a b := by
  apply holds_congr
  · rw [bytes_append, bytes_append, append_lt_append_iff]
  · rw [bytes_append, bytes_append, append_lt_append_iff]
  · exact String.append_right_inj front

/-- What follows two strings that diverge does not count. -/
theorem holds_append_back_iff (h : Diverge a b) (s t : String) :
    comparison.Holds (a ++ s) (b ++ t) ↔ comparison.Holds a b := by
  obtain ⟨hab, hba⟩ := h
  apply holds_congr
  · rw [bytes_append, bytes_append, append_lt_append_iff_of_diverge hab hba]
  · rw [bytes_append, bytes_append, append_lt_append_iff_of_diverge hba hab]
  -- Neither are the strings equal nor the longer ones, since the strings would be beginnings of one list.
  · constructor
    · intro heq
      have hlists := bytes_inj.2 heq
      rw [bytes_append, bytes_append] at hlists
      rcases List.prefix_or_prefix_of_prefix (List.prefix_append (bytes a) (bytes s))
        (hlists ▸ List.prefix_append (bytes b) (bytes t)) with hbegins | hbegins
      · exact absurd hbegins hab
      · exact absurd hbegins hba
    · rintro rfl
      exact absurd (List.prefix_refl _) hab

/-- Every string compares to itself in the same way. -/
theorem holds_self_iff : comparison.Holds a a ↔ comparison.Holds b b := by
  apply holds_congr
  · exact iff_of_false (List.lt_irrefl _) (List.lt_irrefl _)
  · exact iff_of_false (List.lt_irrefl _) (List.lt_irrefl _)
  · exact iff_of_true rfl rfl

/-- A test says the same of two strings that compare in the same way to its operands. -/
theorem accepts_congr {change : String → String} {text text' : String}
    (hholds : ∀ comparison : Comparison, ∀ operand ∈ operands,
      (comparison.Holds text' (change operand) ↔ comparison.Holds text operand))
    (hbegins : kind = .beginsWith → ∀ start ∈ operands,
      (bytes (change start) <+: bytes text' ↔ bytes start <+: bytes text)) :
    kind.Accepts (operands.map change) text' ↔ kind.Accepts operands text := by
  cases kind with
  | compare comparison =>
    rcases operands with _ | ⟨operand, _ | ⟨second, rest⟩⟩
    · rfl
    · exact hholds comparison operand List.mem_cons_self
    · rfl
  | between =>
    rcases operands with _ | ⟨low, _ | ⟨high, _ | ⟨third, rest⟩⟩⟩
    · rfl
    · rfl
    · exact and_congr (hholds .ge low List.mem_cons_self)
        (hholds .le high (List.mem_cons_of_mem _ List.mem_cons_self))
    · rfl
  | beginsWith =>
    rcases operands with _ | ⟨start, _ | ⟨second, rest⟩⟩
    · rfl
    · exact hbegins rfl start List.mem_cons_self
    · rfl
  -- The other tests are not answered from the order of keys.
  | contains => rfl
  | present => rfl
  | absent => rfl
  | hasType => rfl
  | oneOf => rfl
  | size comparison => rfl
  | raw => rfl

/-- A test says the same of strings with a text in front of all of them. -/
theorem accepts_append_front_iff (front text : String) :
    kind.Accepts (operands.map (front ++ ·)) (front ++ text) ↔ kind.Accepts operands text := by
  apply accepts_congr
  · intro comparison operand _
    exact holds_append_front_iff front
  · intro _ start _
    rw [bytes_append, bytes_append, List.prefix_append_right_inj]

/-- A comparison says the same of strings with texts behind them that depend on the strings only, if each
operand is the string itself or diverges from it. -/
theorem accepts_append_back_iff {text : String} (hkind : kind ≠ .beginsWith)
    (hoperands : ∀ operand ∈ operands, text = operand ∨ Diverge text operand) (back : String → String) :
    kind.Accepts (operands.map fun operand => operand ++ back operand) (text ++ back text) ↔
      kind.Accepts operands text := by
  apply accepts_congr
  · intro comparison operand hmem
    rcases hoperands operand hmem with rfl | hdiverge
    · exact holds_self_iff
    · exact holds_append_back_iff hdiverge _ _
  · intro hbegins
    exact absurd hbegins hkind

end Comparisons

end SingleTable
