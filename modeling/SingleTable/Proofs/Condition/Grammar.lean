import SingleTable.Condition.Compile
import SingleTable.Proofs.Text.Balance

/-!
# The grammar of condition texts

A condition text is the text of a leaf, a negation `NOT (…)`, or two or more texts in parentheses that one
word joins. A formula is a tree of this grammar; it is a parse of its own text. The grammar is unambiguous if
the leaf texts are balanced and cannot be mistaken for the start of the other forms (`Formula.unambiguous`):
the first character tells the form, and each parenthesis ends where it is balanced.
-/

set_option autoImplicit false

namespace SingleTable

/-- A tree of the grammar of condition texts. -/
inductive Formula where
  /-- The text of a leaf. -/
  | leaf (text : String)
  /-- A negation. -/
  | not (operand : Formula)
  /-- Operands joined by one word. -/
  | join (joiner : Joiner) (operands : List Formula)

namespace Formula

mutual

/-- The text of a formula. -/
def text : Formula → String
  | .leaf text => text
  | .not operand => "NOT " ++ Condition.parenthesised operand.text
  | .join joiner operands => joiner.separator.intercalate ((texts operands).map Condition.parenthesised)

/-- The texts of a list of formulas. -/
def texts : List Formula → List String
  | [] => []
  | operand :: rest => operand.text :: texts rest

end

/-- The formulas that the grammar allows: their leaves are leaf texts, and two or more operands are joined. -/
inductive Grammatical (isLeafText : String → Prop) : Formula → Prop
  | leaf {text : String} (h : isLeafText text) : Grammatical isLeafText (.leaf text)
  | not {operand : Formula} (h : Grammatical isLeafText operand) : Grammatical isLeafText (.not operand)
  | join {joiner : Joiner} {operands : List Formula} (hlength : 2 ≤ operands.length)
      (h : ∀ operand ∈ operands, Grammatical isLeafText operand) :
      Grammatical isLeafText (.join joiner operands)

/-- A formula is a parse of a text. -/
structure Parses (isLeafText : String → Prop) (formula : Formula) (text : String) : Prop where
  /-- The grammar allows the formula. -/
  grammatical : formula.Grammatical isLeafText
  /-- The formula has the text. -/
  text_eq : formula.text = text

theorem texts_eq_map (operands : List Formula) : texts operands = operands.map text := by
  induction operands with
  | nil => rfl
  | cons operand rest ih => rw [texts, ih, List.map_cons]

end Formula

/-- A text that a parser does not mistake for a negation or a join: its parentheses are balanced, and it
starts with another character. -/
structure IsAtomic (text : String) : Prop where
  /-- The parentheses of the text are its own. -/
  balanced : Balanced text.toList
  /-- The text starts neither as a join nor as a negation. -/
  starts : ∃ c, text.toList.head? = some c ∧ c ≠ '(' ∧ c ≠ 'N'

/-! ## Joined texts -/

section Joined

theorem exists_cons_of_two_le {α : Type} {items : List α} (h : 2 ≤ items.length) :
    ∃ first rest, items = first :: rest :=
  List.exists_cons_of_length_pos (Nat.lt_of_lt_of_le Nat.two_pos h)

theorem toList_parenthesised (text : String) :
    (Condition.parenthesised text).toList = '(' :: text.toList ++ [')'] := by
  rw [Condition.parenthesised, String.toList_append, String.toList_append]
  rfl

theorem toList_separator (joiner : Joiner) :
    joiner.separator.toList = ' ' :: (joiner.word.toList ++ [' ']) := by
  rw [Joiner.separator, String.toList_append, String.toList_append]
  rfl

/-- What follows the first operand of a join: each operand in parentheses behind the separator. -/
def joinedRest (joiner : Joiner) (texts : List String) : List Char :=
  texts.flatMap fun text => joiner.separator.toList ++ (Condition.parenthesised text).toList

theorem toList_joined (joiner : Joiner) (first : String) (rest : List String) :
    (joiner.separator.intercalate ((first :: rest).map Condition.parenthesised)).toList =
      (Condition.parenthesised first).toList ++ joinedRest joiner rest := by
  induction rest generalizing first with
  | nil => rw [List.map_cons, List.map_nil, String.intercalate_singleton, joinedRest, List.flatMap_nil,
      List.append_nil]
  | cons second rest ih =>
    rw [List.map_cons, List.map_cons, String.intercalate_cons_cons, ← List.map_cons, String.toList_append,
      String.toList_append, ih, joinedRest, joinedRest, List.flatMap_cons, List.append_assoc,
      List.append_assoc]

/-- The words of two joiners differ in their first letter. -/
theorem eq_of_separator {joiner joiner' : Joiner} {rest rest' : List Char}
    (h : joiner.separator.toList ++ rest = joiner'.separator.toList ++ rest') : joiner = joiner' := by
  rw [toList_separator, toList_separator] at h
  have hword := (List.cons.inj h).2
  cases joiner with
  | and =>
    cases joiner' with
    | and => rfl
    | or => exact absurd (List.cons.inj hword).1 (by decide)
  | or =>
    cases joiner' with
    | and => exact absurd (List.cons.inj hword).1 (by decide)
    | or => rfl

/-- A text in parentheses is determined by a text that it starts. -/
theorem parenthesised_append_inj {first first' : String} {rest rest' : List Char}
    (hfirst : Balanced first.toList) (hfirst' : Balanced first'.toList)
    (h : (Condition.parenthesised first).toList ++ rest = (Condition.parenthesised first').toList ++ rest') :
    first = first' ∧ rest = rest' := by
  rw [toList_parenthesised, toList_parenthesised, List.append_assoc, List.append_assoc] at h
  obtain ⟨hsame, hrest⟩ := hfirst.append_close_inj hfirst' (List.cons.inj h).2
  exact ⟨String.toList_inj.1 hsame, hrest⟩

/-- The operands behind the first are determined by their text, and so is the joiner if there are any. -/
theorem joinedRest_inj {joiner joiner' : Joiner} {rest rest' : List String}
    (hrest : ∀ text ∈ rest, Balanced text.toList) (hrest' : ∀ text ∈ rest', Balanced text.toList)
    (h : joinedRest joiner rest = joinedRest joiner' rest') :
    rest = rest' ∧ (rest ≠ [] → joiner = joiner') := by
  induction rest generalizing rest' with
  | nil =>
    cases rest' with
    | nil => exact ⟨rfl, fun hne => absurd rfl hne⟩
    | cons text texts =>
      rw [joinedRest, joinedRest, List.flatMap_nil, List.flatMap_cons, toList_separator] at h
      cases h
  | cons text texts ih =>
    cases rest' with
    | nil =>
      rw [joinedRest, joinedRest, List.flatMap_nil, List.flatMap_cons, toList_separator] at h
      cases h
    | cons text' texts' =>
      rw [joinedRest, joinedRest, List.flatMap_cons, List.flatMap_cons, List.append_assoc,
        List.append_assoc] at h
      -- The separator tells the joiner; behind it stands an operand in parentheses.
      obtain rfl := eq_of_separator h
      obtain ⟨rfl, htexts⟩ := parenthesised_append_inj (hrest text List.mem_cons_self)
        (hrest' text' List.mem_cons_self) (List.append_cancel_left h)
      obtain ⟨rfl, -⟩ := ih (fun t ht => hrest t (List.mem_cons_of_mem _ ht))
        (fun t ht => hrest' t (List.mem_cons_of_mem _ ht)) htexts
      exact ⟨rfl, fun _ => rfl⟩

/-- A join of two or more balanced texts is determined by its text. -/
theorem joined_inj {joiner joiner' : Joiner} {texts texts' : List String}
    (htexts : ∀ text ∈ texts, Balanced text.toList) (htexts' : ∀ text ∈ texts', Balanced text.toList)
    (hlength : 2 ≤ texts.length) (hlength' : 2 ≤ texts'.length)
    (h : joiner.separator.intercalate (texts.map Condition.parenthesised) =
      joiner'.separator.intercalate (texts'.map Condition.parenthesised)) :
    joiner = joiner' ∧ texts = texts' := by
  obtain ⟨first, rest, rfl⟩ := exists_cons_of_two_le hlength
  obtain ⟨first', rest', rfl⟩ := exists_cons_of_two_le hlength'
  have hlists := congrArg String.toList h
  rw [toList_joined, toList_joined] at hlists
  obtain ⟨rfl, hrest⟩ := parenthesised_append_inj (htexts first List.mem_cons_self)
    (htexts' first' List.mem_cons_self) hlists
  obtain ⟨rfl, hjoiner⟩ := joinedRest_inj (fun t ht => htexts t (List.mem_cons_of_mem _ ht))
    (fun t ht => htexts' t (List.mem_cons_of_mem _ ht)) hrest
  -- A second operand is there, and the word before it tells the joiner.
  refine ⟨hjoiner ?_, rfl⟩
  rintro rfl
  exact Nat.not_succ_le_self 1 hlength

theorem balanced_parenthesised {text : String} (h : Balanced text.toList) :
    Balanced (Condition.parenthesised text).toList := by
  rw [toList_parenthesised]
  exact h.parenthesised

theorem balanced_joinedRest {joiner : Joiner} {texts : List String}
    (h : ∀ text ∈ texts, Balanced text.toList) : Balanced (joinedRest joiner texts) := by
  have hseparator : Balanced joiner.separator.toList := by cases joiner <;> decide +kernel
  induction texts with
  | nil => exact .nil
  | cons text rest ih =>
    rw [joinedRest, List.flatMap_cons]
    refine .append (.append hseparator ?_) (ih fun t ht => h t (List.mem_cons_of_mem _ ht))
    exact balanced_parenthesised (h text List.mem_cons_self)

end Joined

/-! ## Unambiguity -/

namespace Formula

variable {isLeafText : String → Prop}

theorem head?_not (operand : Formula) : (Formula.not operand).text.toList.head? = some 'N' := by
  rw [text, String.toList_append]
  rfl

theorem head?_join {joiner : Joiner} {operands : List Formula} (hlength : 2 ≤ operands.length) :
    (Formula.join joiner operands).text.toList.head? = some '(' := by
  obtain ⟨first, rest, rfl⟩ := exists_cons_of_two_le hlength
  rw [text, texts, toList_joined, toList_parenthesised]
  rfl

/-- The text of a grammatical formula is balanced. -/
theorem Grammatical.balanced (hatomic : ∀ text, isLeafText text → IsAtomic text) {formula : Formula}
    (h : formula.Grammatical isLeafText) : Balanced formula.text.toList := by
  induction h with
  | leaf hleaf => exact (hatomic _ hleaf).balanced
  | not _ ih =>
    have hword : Balanced "NOT ".toList := by decide +kernel
    rw [text, String.toList_append]
    exact hword.append (balanced_parenthesised ih)
  | @join joiner operands hlength _ ih =>
    obtain ⟨first, rest, rfl⟩ := exists_cons_of_two_le hlength
    rw [text, texts, toList_joined]
    refine .append (balanced_parenthesised (ih first List.mem_cons_self)) (balanced_joinedRest ?_)
    intro text htext
    rw [texts_eq_map] at htext
    obtain ⟨operand, hoperand, rfl⟩ := List.mem_map.1 htext
    exact ih operand (List.mem_cons_of_mem _ hoperand)

theorem Grammatical.balanced_texts (hatomic : ∀ text, isLeafText text → IsAtomic text)
    {operands : List Formula} (h : ∀ operand ∈ operands, operand.Grammatical isLeafText) :
    ∀ text ∈ texts operands, Balanced text.toList := by
  intro text htext
  rw [texts_eq_map] at htext
  obtain ⟨operand, hoperand, rfl⟩ := List.mem_map.1 htext
  exact (h operand hoperand).balanced hatomic

/-- Lists with the same texts are equal if formulas of the first list are determined by their texts. -/
theorem eq_of_texts_eq {operands operands' : List Formula} {p : Formula → Prop}
    (hinj : ∀ operand ∈ operands, ∀ other, p other → operand.text = other.text → operand = other)
    (hp : ∀ other ∈ operands', p other) (h : texts operands = texts operands') : operands = operands' := by
  induction operands generalizing operands' with
  | nil =>
    cases operands' with
    | nil => rfl
    | cons other rest => cases h
  | cons operand rest ih =>
    cases operands' with
    | nil => cases h
    | cons other rest' =>
      obtain ⟨hfirst, hrest⟩ := List.cons.inj h
      rw [hinj operand List.mem_cons_self other (hp other List.mem_cons_self) hfirst,
        ih (fun o ho => hinj o (List.mem_cons_of_mem _ ho)) (fun o ho => hp o (List.mem_cons_of_mem _ ho)) hrest]

/-- **The grammar is unambiguous.** Grammatical formulas with the same text are equal. -/
theorem unambiguous (hatomic : ∀ text, isLeafText text → IsAtomic text) {formula other : Formula}
    (h : formula.Grammatical isLeafText) (hother : other.Grammatical isLeafText)
    (htext : formula.text = other.text) : formula = other := by
  -- The other formula has to be of the same form, since the first character tells the form.
  induction h generalizing other with
  | @leaf text hleaf =>
    obtain ⟨c, hhead, hopen, hword⟩ := (hatomic text hleaf).starts
    have hfirst : other.text.toList.head? = some c := by rw [← htext, Formula.text, hhead]
    cases hother with
    | leaf _ => rw [Formula.text, Formula.text] at htext; rw [htext]
    | not _ =>
      rw [head?_not] at hfirst
      exact absurd (Option.some.inj hfirst).symm hword
    | join hlength _ =>
      rw [head?_join hlength] at hfirst
      exact absurd (Option.some.inj hfirst).symm hopen
  | @not operand _ ih =>
    have hfirst : other.text.toList.head? = some 'N' := by rw [← htext, head?_not]
    cases hother with
    | @leaf text hleaf =>
      obtain ⟨c, hhead, _, hword⟩ := (hatomic text hleaf).starts
      rw [Formula.text, hhead] at hfirst
      exact absurd (Option.some.inj hfirst) hword
    | @not operand' hoperand' =>
      -- Both are the same word around a text in parentheses, so no balance is needed here.
      have hsame : operand.text = operand'.text := by
        rw [Formula.text, Formula.text, String.append_right_inj, Condition.parenthesised,
          Condition.parenthesised, String.append_left_inj, String.append_right_inj] at htext
        exact htext
      rw [ih hoperand' hsame]
    | join hlength _ =>
      rw [head?_join hlength] at hfirst
      cases hfirst
  | @join joiner operands hlength hoperands ih =>
    have hfirst : other.text.toList.head? = some '(' := by rw [← htext, head?_join hlength]
    cases hother with
    | @leaf text hleaf =>
      obtain ⟨c, hhead, hopen, _⟩ := (hatomic text hleaf).starts
      rw [Formula.text, hhead] at hfirst
      exact absurd (Option.some.inj hfirst) hopen
    | not _ =>
      rw [head?_not] at hfirst
      cases hfirst
    | @join joiner' operands' hlength' hoperands' =>
      -- Here the operands have to be told apart, which takes that their texts are balanced.
      have hcount : ∀ formulas : List Formula, (texts formulas).length = formulas.length := by
        intro formulas
        rw [texts_eq_map, List.length_map]
      obtain ⟨rfl, htexts⟩ := joined_inj (Grammatical.balanced_texts hatomic hoperands)
        (Grammatical.balanced_texts hatomic hoperands') (by rwa [hcount]) (by rwa [hcount]) htext
      rw [eq_of_texts_eq (fun o ho other hp => ih o ho hp) hoperands' htexts]

end Formula

end SingleTable
