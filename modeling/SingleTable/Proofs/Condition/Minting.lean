import Mathlib.Data.List.Pairwise
import SingleTable.Condition.Test

/-!
# Minted placeholders

An operator builder makes tests one after the other, and each test mints its placeholders with the next
numbers of the builder's counter. So no two tests of a builder share a placeholder, whatever the names of
their attributes are (`Apart.unique`): the number of a placeholder can be read off its end.
-/

set_option autoImplicit false

namespace SingleTable

/-! ## Numbers of placeholders -/

/-- The last parts of two texts behind a separator are equal if the texts are. -/
theorem eq_of_append_separator {separator : Char} {front back front' back' : List Char}
    (hback : separator ∉ back) (hback' : separator ∉ back')
    (h : front ++ separator :: back = front' ++ separator :: back') : back = back' := by
  induction front generalizing front' with
  | nil =>
    cases front' with
    | nil => exact (List.cons.inj h).2
    | cons c rest =>
      have hmem : separator ∈ back := by
        rw [(List.cons.inj h).2]
        exact List.mem_append_right _ List.mem_cons_self
      exact absurd hmem hback
  | cons c rest ih =>
    cases front' with
    | nil =>
      have hmem : separator ∈ back' := by
        rw [← (List.cons.inj h).2]
        exact List.mem_append_right _ List.mem_cons_self
      exact absurd hmem hback'
    | cons c' rest' => exact ih (List.cons.inj h).2

theorem underscore_not_mem_toString (number : Nat) : '_' ∉ (toString number).toList := by
  intro h
  rw [Nat.toString_eq_repr, Nat.toList_repr] at h
  have hdigit := Nat.isDigit_of_mem_toDigits (by decide) (by decide) h
  exact absurd hdigit (by decide)

/-- A placeholder tells its number. -/
theorem valuePlaceholder_number {name role name' role' : String} {number number' : Nat}
    (h : valuePlaceholder name role number = valuePlaceholder name' role' number') : number = number' := by
  have hlists := congrArg String.toList h
  -- Names and roles may contain digits and underscores, but the number follows the last underscore.
  rw [valuePlaceholder, valuePlaceholder, String.toList_append, String.toList_append (t := toString number'),
    String.toList_append (t := "_"), String.toList_append (t := "_"), List.append_assoc, List.append_assoc]
    at hlists
  have hdigits := eq_of_append_separator (underscore_not_mem_toString number)
    (underscore_not_mem_toString number') hlists
  rw [Nat.toString_eq_repr, Nat.toString_eq_repr, Nat.toList_repr, Nat.toList_repr] at hdigits
  calc
    number = Nat.ofDigitChars 10 (Nat.toDigits 10 number) 0 := Nat.ofDigitChars_ten_toDigits.symm
    _ = Nat.ofDigitChars 10 (Nat.toDigits 10 number') 0 := by rw [hdigits]
    _ = number' := Nat.ofDigitChars_ten_toDigits

/-! ## Leaves of tests -/

section Leaves

variable {test : Test} {next : Nat} {placeholder : String} {value : Value}

theorem leaf_negated (test : Test) (next : Nat) : (test.leaf next).negated = false := by
  rw [Test.leaf]
  split <;> rfl

theorem leaf_kind (test : Test) (next : Nat) : (test.leaf next).kind = test.kind := by
  rw [Test.leaf]
  split <;> rfl

/-- Only a choice out of no values is void. -/
theorem eq_oneOf_of_isVoid (h : test.isVoid = true) : ∃ target, test = .oneOf target [] := by
  cases test with
  | oneOf target values => exact ⟨target, by rw [List.isEmpty_iff.1 h]⟩
  | compare comparison target value => cases h
  | between target low high => cases h
  | beginsWith target start => cases h
  | contains target part => cases h
  | present target => cases h
  | absent target => cases h
  | hasType target kind => cases h
  | size comparison target bound => cases h

/-- The leaf of a test that is not void shows the operand and the placeholders of the test. -/
theorem text_leaf (h : test.isVoid = false) (next : Nat) :
    (test.leaf next).text = test.text test.target.operand.text ((test.bound next).map Prod.fst) := by
  rw [Test.leaf, h]
  rfl

/-- The leaf of a test that is not void names the steps of the operand. -/
theorem names_leaf (h : test.isVoid = false) (next : Nat) :
    (test.leaf next).names = .ofList test.target.operand.names := by
  rw [Test.leaf, h]
  rfl

/-- The leaf of a test binds the placeholders of the test. -/
theorem values_leaf (test : Test) (next : Nat) : (test.leaf next).values = .ofList (test.bound next) := by
  rw [Test.leaf]
  split
  -- A void test mints no placeholder, and its leaf has no entry.
  · rename_i hvoid
    obtain ⟨target, rfl⟩ := eq_oneOf_of_isVoid hvoid
    rfl
  · rfl

theorem length_bound (test : Test) (next : Nat) : (test.bound next).length = test.operands.length := by
  rw [Test.bound, List.length_mapIdx]

/-- The placeholders of a test stand for its values in order. -/
theorem map_snd_bound (test : Test) (next : Nat) :
    (test.bound next).map Prod.snd = test.operands.map Prod.snd := by
  apply List.ext_getElem
  · rw [List.length_map, List.length_map, length_bound]
  · intro i hi hi'
    simp [Test.bound]

/-- The placeholders of a test with their values. -/
theorem mem_bound_iff : (placeholder, value) ∈ test.bound next ↔
    ∃ i role, test.operands[i]? = some (role, value) ∧
      placeholder = valuePlaceholder test.target.name role (next + i) := by
  rw [Test.bound, List.mem_mapIdx]
  constructor
  · rintro ⟨i, hi, heq⟩
    obtain ⟨rfl, rfl⟩ := Prod.mk.inj heq
    exact ⟨i, _, List.getElem?_eq_getElem hi, rfl⟩
  · rintro ⟨i, role, hget, rfl⟩
    obtain ⟨hi, hget⟩ := List.getElem?_eq_some_iff.1 hget
    exact ⟨i, hi, by rw [hget]⟩

/-- The number of a placeholder lies in the range that its test took from the counter. -/
theorem exists_number_of_mem_bound (h : (placeholder, value) ∈ test.bound next) :
    ∃ i role, i < test.arity ∧ test.operands[i]? = some (role, value) ∧
      placeholder = valuePlaceholder test.target.name role (next + i) := by
  obtain ⟨i, role, hget, heq⟩ := mem_bound_iff.1 h
  exact ⟨i, role, (List.getElem?_eq_some_iff.1 hget).1, hget, heq⟩

/-- The placeholders of a test are different from each other. -/
theorem nodup_bound (test : Test) (next : Nat) : ((test.bound next).map Prod.fst).Nodup := by
  refine List.pairwise_map.2 (List.pairwise_iff_getElem.2 fun i j hi hj hij heq => ?_)
  simp only [Test.bound, List.getElem_mapIdx] at heq
  have hnumber := valuePlaceholder_number heq
  omega

/-- The map of a leaf has all the placeholders of its test. -/
theorem entries_leaf_perm (test : Test) (next : Nat) :
    (test.leaf next).values.entries.Perm (test.bound next) := by
  rw [values_leaf]
  exact Dict.entries_ofList_perm (nodup_bound test next)

/-- The leaf of a test gives each placeholder the value that it was minted for. -/
theorem get?_leaf : (test.leaf next).values.get? placeholder = some value ↔
    (placeholder, value) ∈ test.bound next := by
  rw [values_leaf, Dict.get?_ofList, findEntry_reverse (nodup_bound test next),
    findEntry_eq_some_iff (nodup_bound test next)]

/-- Tests with the same leaf have the same operands. -/
theorem mem_operands_of_leaf_eq {test other : Test} {next next' : Nat}
    (h : test.leaf next = other.leaf next') {value : Value} (hmem : value ∈ test.operands.map Prod.snd) :
    value ∈ other.operands.map Prod.snd := by
  rw [← map_snd_bound test next] at hmem
  obtain ⟨⟨placeholder, value⟩, hentry, rfl⟩ := List.mem_map.1 hmem
  have hbound := get?_leaf.2 hentry
  rw [h] at hbound
  rw [← map_snd_bound other next']
  exact List.mem_map_of_mem (get?_leaf.1 hbound)

end Leaves

/-! ## Tests of one builder -/

/-- The tests that an operator builder makes while its counter goes from a first number to a next one, each
with the number from which its placeholders count. The counter may also be advanced by hand. -/
inductive Minted (first : Nat) : List (Test × Nat) → Nat → Prop
  | start : Minted first [] first
  | operator {made : List (Test × Nat)} {next : Nat} (h : Minted first made next) (test : Test) :
      Minted first (made ++ [(test, next)]) (test.build.run next).2
  | skip {made : List (Test × Nat)} {next : Nat} (h : Minted first made next) :
      Minted first made (next + 1)

/-- Tests took their numbers one after the other and below the counter. -/
structure Apart (made : List (Test × Nat)) (next : Nat) : Prop where
  /-- A test takes numbers behind those of the tests before it. -/
  ordered : made.Pairwise fun a b => a.2 + a.1.arity ≤ b.2
  /-- No test took a number that the counter has not given out. -/
  below : ∀ entry ∈ made, entry.2 + entry.1.arity ≤ next

namespace Apart

variable {made : List (Test × Nat)} {next : Nat}

theorem empty (next : Nat) : Apart [] next :=
  ⟨List.Pairwise.nil, fun _ h => by cases h⟩

theorem mono {after : Nat} (h : Apart made next) (hle : next ≤ after) : Apart made after :=
  ⟨h.ordered, fun entry hentry => Nat.le_trans (h.below entry hentry) hle⟩

/-- An operator takes the next numbers. -/
theorem operator (h : Apart made next) (test : Test) :
    Apart (made ++ [(test, next)]) (test.build.run next).2 := by
  have hrun : (test.build.run next).2 = next + test.arity := rfl
  rw [hrun]
  constructor
  · refine List.pairwise_append.2 ⟨h.ordered, List.pairwise_singleton _ _, fun a ha b hb => ?_⟩
    rw [List.mem_singleton.1 hb]
    exact h.below a ha
  · intro entry hentry
    rcases List.mem_append.1 hentry with hold | hnew
    · exact Nat.le_trans (h.below entry hold) (Nat.le_add_right _ _)
    · exact Nat.le_of_eq (by rw [List.mem_singleton.1 hnew])

/-- A builder keeps its tests apart. -/
theorem append (h : Apart made next) {more : List (Test × Nat)} {after : Nat}
    (hmore : Minted next more after) : Apart (made ++ more) after := by
  induction hmore with
  | start => rwa [List.append_nil]
  | operator _ test ih =>
    rw [← List.append_assoc]
    exact ih.operator test
  | skip _ ih => exact ih.mono (Nat.le_succ _)

/-- **Placeholders are minted once.** If two tests of a builder have a placeholder in common, they are the
same, and so is the value that the placeholder was minted for. -/
theorem unique (h : Apart made next) {a b : Test × Nat} (ha : a ∈ made) (hb : b ∈ made)
    {placeholder : String} {v w : Value} (hv : (placeholder, v) ∈ a.1.bound a.2)
    (hw : (placeholder, w) ∈ b.1.bound b.2) : a = b ∧ v = w := by
  obtain ⟨i, role, hi, hget, heq⟩ := exists_number_of_mem_bound hv
  obtain ⟨j, role', hj, hget', heq'⟩ := exists_number_of_mem_bound hw
  have hnumber : a.2 + i = b.2 + j := valuePlaceholder_number (heq.symm.trans heq')
  -- Different tests took their numbers from ranges that do not meet.
  have hsame : a = b := by
    by_contra hne
    have hsymm : Std.Symm fun a b : Test × Nat => a.2 + a.1.arity ≤ b.2 ∨ b.2 + b.1.arity ≤ a.2 :=
      ⟨fun _ _ => Or.symm⟩
    have hapart : made.Pairwise fun a b => a.2 + a.1.arity ≤ b.2 ∨ b.2 + b.1.arity ≤ a.2 :=
      h.ordered.imp Or.inl
    rcases hapart.forall ha hb hne with hle | hle <;> omega
  subst hsame
  -- In one test the number tells the value.
  have hindex : i = j := Nat.add_left_cancel hnumber
  subst hindex
  rw [hget] at hget'
  exact ⟨rfl, (Prod.mk.inj (Option.some.inj hget')).2⟩

end Apart

end SingleTable
