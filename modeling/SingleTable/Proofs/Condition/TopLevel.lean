import SingleTable.Proofs.Condition.Attribute

/-!
# Attributes of top-level tests

The text of a test shows the name of its attribute behind a mark, and again inside of each placeholder. A name
that holds a mark itself therefore shows a second token there, which reaches to the end of the placeholder, and
this token is never that of the name (`token_of_marked_name`): it has one mark less behind its first. So the
attribute of a top-level test that has values is its name or nothing (`attribute?_of_operands`), whatever the
name, the values and the numbers of the placeholders are.
-/

set_option autoImplicit false

namespace SingleTable

/-! ## Names in placeholders -/

section Placeholders

variable {name role : String}

/-- What stands behind the name in a placeholder has no mark. -/
theorem plain_placeholderEnd (hrole : IsPlainText role) (number : Nat) :
    IsPlainText (role ++ "_" ++ toString number) := by
  have hunderscore : IsPlainText "_" := by decide +kernel
  exact (hrole.append hunderscore).append (plain_toString number)

theorem toList_valuePlaceholder (name role : String) (number : Nat) :
    (valuePlaceholder name role number).toList =
      ':' :: name.toList ++ (role ++ "_" ++ toString number).toList := by
  have hsplit : valuePlaceholder name role number = ":" ++ name ++ (role ++ "_" ++ toString number) := by
    rw [valuePlaceholder, String.append_assoc, String.append_assoc, String.append_assoc, String.append_assoc,
      String.append_assoc]
  rw [hsplit, String.toList_append, String.toList_append]
  rfl

/-- A placeholder of a name without a mark shows no name. -/
theorem shown_placeholder_of_no_mark (hname : '#' ∉ name.toList) (hrole : IsPlainText role) (number : Nat) :
    shown .name (valuePlaceholder name role number) = [] := by
  have hmark : Mark.name.char ∉ (valuePlaceholder name role number).toList := by
    rw [toList_valuePlaceholder, List.mem_append, List.mem_cons]
    rintro ((hcolon | hmem) | hmem)
    · exact absurd hcolon (by decide)
    · exact hname hmem
    · exact (plain_placeholderEnd hrole number _ hmem).2.1 rfl
  rw [shown, ← List.append_nil (valuePlaceholder name role number).toList,
    tokensBehind_append_of_no_mark hmark, tokensBehind]

/-- **A mark in a name shows another name.** The placeholder of a name that holds a mark shows a token that is
not the one of the name. -/
theorem token_of_marked_name (hname : IsTokenName name) (hmark : '#' ∈ name.toList) (hrole : IsPlainText role)
    (number : Nat) :
    ∃ token ∈ shown .name (valuePlaceholder name role number), token ≠ nameToken name := by
  obtain ⟨front, back, hcut, hfront⟩ := List.eq_append_cons_of_mem hmark
  have hend := plain_placeholderEnd hrole number
  -- The token starts at the first mark of the name and reaches to the end of the placeholder.
  have hchars : ∀ c ∈ back ++ (role ++ "_" ++ toString number).toList, isTokenChar c = true := by
    intro c hc
    rcases List.mem_append.1 hc with hc | hc
    · exact hname.chars c (hcut ▸ List.mem_append_right _ (List.mem_cons_of_mem _ hc))
    · exact (hend c hc).1
  have hne : back ++ (role ++ "_" ++ toString number).toList ≠ [] := by simp
  have hfront : Mark.name.char ∉ ':' :: front := by
    rw [List.mem_cons, not_or]
    exact ⟨by decide, hfront⟩
  have hlist : (valuePlaceholder name role number).toList =
      (':' :: front) ++ (Mark.name.char :: (back ++ (role ++ "_" ++ toString number).toList)) := by
    rw [toList_valuePlaceholder, hcut]
    simp [Mark.char]
  refine ⟨String.ofList (Mark.name.char :: (back ++ (role ++ "_" ++ toString number).toList)), ?_, ?_⟩
  · rw [shown, hlist, tokensBehind_append_of_no_mark hfront, tokensBehind_run hne hchars]
    exact List.mem_singleton_self _
  -- Behind its first mark, the token of the name has one mark more.
  · intro heq
    have htoken : (nameToken name).toList = '#' :: name.toList := String.toList_append
    have hlists := congrArg String.toList heq
    rw [String.toList_ofList, htoken] at hlists
    have hsame : back ++ (role ++ "_" ++ toString number).toList = front ++ '#' :: back :=
      (List.cons.inj hlists).2.trans hcut
    have hcount := congrArg (List.count '#') hsame
    rw [List.count_append, List.count_append, List.count_cons_self,
      List.count_eq_zero.2 fun hmem => (hend _ hmem).2.1 rfl] at hcount
    omega

end Placeholders

/-! ## Tests with values -/

section Tests

variable {test : Test} {next : Nat} {name : String}

/-- A test that has values shows one of them. -/
theorem exists_bound_of_operands (h : test.operands ≠ []) (next : Nat) :
    ∃ role value, (role, value) ∈ test.operands ∧
      ∃ number, (valuePlaceholder test.target.name role number, value) ∈ test.bound next := by
  cases hlist : test.operands with
  | nil => exact absurd hlist h
  | cons operand rest =>
    refine ⟨operand.1, operand.2, List.mem_cons_self, next + 0, mem_bound_iff.2 ⟨0, operand.1, ?_, rfl⟩⟩
    rw [hlist]
    rfl

/-- A top-level test with values shows only the name of its target, if this is one token and holds no mark; if
not, there is no name that it shows alone. -/
theorem showsOnly_iff_of_operands (hpath : test.target.path = none) (hvalues : test.operands ≠ []) :
    test.ShowsOnly next name ↔
      name = test.target.name ∧ IsTokenName name ∧ '#' ∉ name.toList := by
  have hsteps := Handle.steps_of_no_path hpath
  constructor
  · rintro ⟨⟨step, hstep, rfl⟩, htoken, -, hplaceholders⟩
    rw [hsteps, List.mem_singleton] at hstep
    subst hstep
    refine ⟨rfl, htoken, fun hmark => ?_⟩
    obtain ⟨role, value, hoperand, number, hbound⟩ := exists_bound_of_operands hvalues next
    obtain ⟨token, hmem, hne⟩ := token_of_marked_name htoken hmark (plain_role hoperand) number
    exact hne (hplaceholders _ hbound token hmem)
  · rintro ⟨rfl, htoken, hmark⟩
    refine ⟨⟨_, hsteps ▸ List.mem_singleton_self _, rfl⟩, htoken, ?_, ?_⟩
    · intro token hmem
      rw [Handle.operand, hpath, shown_nameToken htoken.nonempty htoken.chars] at hmem
      exact List.mem_singleton.1 hmem
    · rintro ⟨placeholder, value⟩ hbound token hmem
      obtain ⟨i, role, hget, rfl⟩ := mem_bound_iff.1 hbound
      rw [shown_placeholder_of_no_mark hmark (plain_role (List.mem_of_getElem? hget))] at hmem
      cases hmem

/-- The attribute of a top-level test with values is its name or nothing. -/
theorem attribute?_of_operands (htarget : test.target = ⟨name, none⟩) (hvalues : test.operands ≠ []) :
    (test.leaf next).attribute? = if IsTokenName name ∧ '#' ∉ name.toList then some name else none := by
  have hvoid : test.isVoid = false := by
    cases hvoid : test.isVoid with
    | false => rfl
    | true =>
      obtain ⟨target, rfl⟩ := eq_oneOf_of_isVoid hvoid
      exact absurd rfl hvalues
  have honly : ∀ found, (test.leaf next).attribute? = some found ↔
      found = name ∧ IsTokenName found ∧ '#' ∉ found.toList := by
    intro found
    rw [attribute?_leaf_iff hvoid, showsOnly_iff_of_operands (by rw [htarget]) hvalues, htarget]
  apply Option.ext
  intro found
  rw [honly]
  split
  · rename_i hname
    rw [Option.some_inj]
    constructor
    · rintro ⟨rfl, -⟩
      rfl
    · rintro rfl
      exact ⟨rfl, hname⟩
  · rename_i hname
    constructor
    · rintro ⟨rfl, hfound⟩
      exact absurd hfound hname
    · intro h
      cases h

end Tests

/-- **The name of a top-level attribute is read back.** The attribute of a comparison, a range or a test of a
beginning on a top-level attribute is the name of this attribute if the name is one token and holds no mark,
and nothing otherwise. It is never another name. -/
theorem top_level_attribute (name : String) (next : Nat) :
    (∀ comparison value, ((Test.compare comparison ⟨name, none⟩ value).leaf next).attribute? =
      if IsTokenName name ∧ '#' ∉ name.toList then some name else none) ∧
    (∀ low high, ((Test.between ⟨name, none⟩ low high).leaf next).attribute? =
      if IsTokenName name ∧ '#' ∉ name.toList then some name else none) ∧
    (∀ start, ((Test.beginsWith ⟨name, none⟩ start).leaf next).attribute? =
      if IsTokenName name ∧ '#' ∉ name.toList then some name else none) := by
  refine ⟨fun comparison value => ?_, fun low high => ?_, fun start => ?_⟩
  · exact attribute?_of_operands rfl (List.cons_ne_nil _ _)
  · exact attribute?_of_operands rfl (List.cons_ne_nil _ _)
  · exact attribute?_of_operands rfl (List.cons_ne_nil _ _)

/-- A mark in a name that stands behind a point shows one name only, but no name of the map. -/
example :
    ((Test.compare .eq ⟨".#", none⟩ (.string "x")).leaf 0).attribute? = none ∧
      ((Test.compare .eq ⟨"a:b", none⟩ (.string "x")).leaf 0).attribute? = some "a:b" := by
  decide +kernel

end SingleTable
