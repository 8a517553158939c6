import SingleTable.Proofs.Text.Balance

/-!
# Words and lists in texts

A text is cut into words at its blanks, and the words are all there is to it (`wordsOf_inj`). Words of a given
kind can serve as marks: a list of marks with other words behind each of them is determined by its words
(`flatMap_cons_inj`).

A list whose items are separated by commas is determined by its text if the items are undivided: their
parentheses are balanced and every comma in them stands inside of parentheses (`intercalate_comma_inj`).
-/

set_option autoImplicit false

namespace SingleTable

/-! ## Words -/

/-- The words of a text, which stand between its blanks. -/
def wordsOf (text : String) : List String := (text.toList.splitOn ' ').map String.ofList

/-- A text without a blank. -/
def IsWord (text : String) : Prop := ' ' ∉ text.toList

instance (text : String) : Decidable (IsWord text) := inferInstanceAs (Decidable (_ ∉ _))

section Words

variable {text front back : String}

theorem IsWord.append (hfront : IsWord front) (hback : IsWord back) : IsWord (front ++ back) := by
  rw [IsWord, String.toList_append, List.mem_append, not_or]
  exact ⟨hfront, hback⟩

theorem wordsOf_of_isWord (h : IsWord text) : wordsOf text = [text] := by
  rw [wordsOf, List.splitOn_eq_singleton h, List.map_singleton, String.ofList_toList]

theorem wordsOf_append_blank (front back : String) :
    wordsOf (front ++ " " ++ back) = wordsOf front ++ wordsOf back := by
  have hcut : (front ++ " " ++ back).toList = front.toList ++ ' ' :: back.toList := by
    rw [String.toList_append, String.toList_append, List.append_assoc]
    rfl
  rw [wordsOf, hcut, List.splitOn_append_cons_self, List.map_append]
  rfl

/-- A text is made of its words. -/
theorem wordsOf_inj (h : wordsOf front = wordsOf back) : front = back := by
  have hparts : front.toList.splitOn ' ' = back.toList.splitOn ' ' :=
    (List.map_inj_right fun _ _ => String.ofList_inj.1).1 h
  have hjoined (chars : List Char) : [' '].intercalate (chars.splitOn ' ') = chars :=
    List.intercalate_splitOn ' '
  have hchars : front.toList = back.toList := by
    rw [← hjoined front.toList, hparts, hjoined]
  exact String.toList_inj.1 hchars

/-- Texts with blanks between them have the words of each. -/
theorem wordsOf_intercalate {texts : List String} (h : texts ≠ []) :
    wordsOf (" ".intercalate texts) = texts.flatMap wordsOf := by
  induction texts with
  | nil => exact absurd rfl h
  | cons first rest ih =>
    cases rest with
    | nil => rw [String.intercalate_singleton, List.flatMap_singleton]
    | cons second rest =>
      rw [List.flatMap_cons, String.intercalate_cons_cons, wordsOf_append_blank, ih (List.cons_ne_nil _ _)]

/-- Words with blanks between them are read back. -/
theorem wordsOf_intercalate_words {words : List String} (hne : words ≠ [])
    (h : ∀ word ∈ words, IsWord word) : wordsOf (" ".intercalate words) = words := by
  rw [wordsOf_intercalate hne]
  clear hne
  induction words with
  | nil => rfl
  | cons first rest ih =>
    obtain ⟨hfirst, hrest⟩ := List.forall_mem_cons.1 h
    rw [List.flatMap_cons, wordsOf_of_isWord hfirst, ih hrest, List.singleton_append]

/-- Induction over the words of a text. -/
theorem word_induction {motive : String → Prop} (last : ∀ word, IsWord word → motive word)
    (more : ∀ word rest, IsWord word → motive rest → motive (word ++ " " ++ rest)) (text : String) :
    motive text := by
  by_cases hblank : ' ' ∈ text.toList
  · obtain ⟨front, back, hcut, hfront⟩ := List.eq_append_cons_of_mem hblank
    have htext : text = String.ofList front ++ " " ++ String.ofList back := by
      simp [← String.toList_inj, hcut]
    have hshorter : (String.ofList back).length < text.length := by
      rw [← String.length_toList, ← String.length_toList, String.toList_ofList, hcut, List.length_append,
        List.length_cons]
      omega
    rw [htext]
    exact more _ _ (by rwa [IsWord, String.toList_ofList]) (word_induction last more _)
  · exact last text hblank
termination_by text.length
decreasing_by exact hshorter

/-- A comma behind a text stands behind its last word. -/
theorem mem_wordsOf_append_comma {word : String} (h : word ∈ wordsOf (text ++ ",")) :
    word ∈ wordsOf text ∨ ∃ stem, word = stem ++ "," := by
  have hcomma : IsWord "," := by decide +kernel
  induction text using word_induction with
  | last only hword =>
    rw [wordsOf_of_isWord (hword.append hcomma), List.mem_singleton] at h
    exact Or.inr ⟨only, h⟩
  | more first rest hfirst ih =>
    rw [String.append_assoc, wordsOf_append_blank, List.mem_append] at h
    rw [wordsOf_append_blank, List.mem_append]
    rcases h with h | h
    · exact Or.inl (Or.inl h)
    · exact (ih h).imp_left Or.inr

end Words

/-! ## Marks -/

section Marks

variable {α : Type} {isMark : α → Prop} {parts others : List (α × List α)}

/-- What stands behind a mark ends where the next mark does. -/
theorem append_flatMap_inj {behind behind' : List α} (hbehind : ∀ item ∈ behind, ¬ isMark item)
    (hbehind' : ∀ item ∈ behind', ¬ isMark item) (hparts : ∀ part ∈ parts, isMark part.1)
    (hothers : ∀ part ∈ others, isMark part.1)
    (h : behind ++ parts.flatMap (fun part => part.1 :: part.2) =
      behind' ++ others.flatMap (fun part => part.1 :: part.2)) :
    behind = behind' ∧
      parts.flatMap (fun part => part.1 :: part.2) = others.flatMap (fun part => part.1 :: part.2) := by
  -- What one side has too many would start with a mark of the other.
  have hnone : ∀ {more rest : List α} {list : List (α × List α)}, (∀ item ∈ more, ¬ isMark item) →
      (∀ part ∈ list, isMark part.1) → list.flatMap (fun part => part.1 :: part.2) = more ++ rest →
        more = [] := by
    intro more rest list hmore hlist hcut
    cases more with
    | nil => rfl
    | cons item more =>
      cases list with
      | nil => cases hcut
      | cons part list =>
        rw [List.flatMap_cons] at hcut
        have hmark : isMark item := (List.cons.inj hcut).1 ▸ hlist part List.mem_cons_self
        exact absurd hmark (hmore item List.mem_cons_self)
  rcases List.append_eq_append_iff.1 h with ⟨more, rfl, hcut⟩ | ⟨more, rfl, hcut⟩
  · obtain rfl := hnone (fun item hitem => hbehind' item (List.mem_append_right _ hitem)) hparts hcut
    exact ⟨(List.append_nil _).symm, hcut⟩
  · obtain rfl := hnone (fun item hitem => hbehind item (List.mem_append_right _ hitem)) hothers hcut
    exact ⟨List.append_nil _, hcut.symm⟩

/-- **Marks cut a list.** Marks with items behind them that are no marks are determined by the whole list. -/
theorem flatMap_cons_inj (hparts : ∀ part ∈ parts, isMark part.1 ∧ ∀ item ∈ part.2, ¬ isMark item)
    (hothers : ∀ part ∈ others, isMark part.1 ∧ ∀ item ∈ part.2, ¬ isMark item)
    (h : parts.flatMap (fun part => part.1 :: part.2) = others.flatMap (fun part => part.1 :: part.2)) :
    parts = others := by
  induction parts generalizing others with
  | nil =>
    cases others with
    | nil => rfl
    | cons other rest => cases h
  | cons part parts ih =>
    cases others with
    | nil => cases h
    | cons other others =>
      obtain ⟨hpart, hmore⟩ := List.forall_mem_cons.1 hparts
      obtain ⟨hother, hmore'⟩ := List.forall_mem_cons.1 hothers
      rw [List.flatMap_cons, List.flatMap_cons, List.cons_append, List.cons_append] at h
      obtain ⟨hmark, hrest⟩ := List.cons.inj h
      obtain ⟨hbehind, hlater⟩ := append_flatMap_inj hpart.2 hother.2 (fun p hp => (hmore p hp).1)
        (fun p hp => (hmore' p hp).1) hrest
      rw [ih hmore hmore' hlater, Prod.ext hmark hbehind]

end Marks

/-! ## Lists with commas -/

/-- A text that is one item of a list: a comma in it stands inside of parentheses. -/
structure Undivided (text : String) : Prop where
  /-- The parentheses of the text are its own. -/
  balanced : Balanced text.toList
  /-- Before a comma a parenthesis is open. -/
  enclosed : ∀ front back, text.toList = front ++ ',' :: back → ¬ Balanced front

/-- A character that divides no text: no parenthesis and no comma. -/
def IsItemChar (c : Char) : Prop := IsInner c ∧ c ≠ ','

instance (c : Char) : Decidable (IsItemChar c) := inferInstanceAs (Decidable (_ ∧ _))

namespace Undivided

theorem of_chars {text : String} (h : MadeOf IsItemChar text) : Undivided text := by
  refine ⟨Balanced.of_inner fun c hc => (h c hc).1, ?_⟩
  intro front back hcut
  have hcomma : ',' ∈ text.toList := hcut ▸ List.mem_append_right _ List.mem_cons_self
  exact absurd rfl (h ',' hcomma).2

/-- A call is undivided, although there may be commas between its arguments. -/
theorem call {function inside : String} (hfunction : MadeOf IsItemChar function)
    (hinside : IsFlat inside) : Undivided (function ++ "(" ++ inside ++ ")") := by
  have hchars : (function ++ "(" ++ inside ++ ")").toList =
      function.toList ++ ('(' :: inside.toList ++ [')']) := by
    simp
  have hflat : Balanced function.toList := Balanced.of_inner fun c hc => (hfunction c hc).1
  constructor
  · rw [hchars]
    exact hflat.append hinside.balanced.parenthesised
  · intro front back hcut hbalanced
    rw [hchars] at hcut
    rcases List.append_eq_append_iff.1 hcut with ⟨opened, rfl, hbehind⟩ | ⟨rest, hname, hbehind⟩
    -- The comma stands behind the parenthesis, which is still open there.
    · cases opened with
      | nil => exact absurd (List.cons.inj hbehind).1 (by decide)
      | cons c opened =>
        obtain ⟨rfl, hinner⟩ := List.cons.inj hbehind
        have hopened : ∀ c ∈ opened, IsInner c := by
          rcases List.append_eq_append_iff.1 hinner with ⟨more, -, hclose⟩ | ⟨more, hfront, -⟩
          · cases more with
            | nil => exact absurd (List.cons.inj hclose).1 (by decide)
            | cons c more => exact absurd (List.cons.inj hclose).2 (by simp)
          · exact fun c hc => hinside c (hfront ▸ List.mem_append_left _ hc)
        have hdepth := depthAfter_add (Balanced.of_inner hopened) 1
        rw [Balanced, depthAfter_append, hflat, Option.bind_some, depthAfter_open, hdepth] at hbalanced
        cases hbalanced
    -- There is no comma in the name of the function.
    · cases rest with
      | nil => exact absurd (List.cons.inj hbehind).1 (by decide)
      | cons c rest =>
        obtain ⟨rfl, -⟩ := List.cons.inj hbehind
        have hcomma : ',' ∈ function.toList := hname ▸ List.mem_append_right _ List.mem_cons_self
        exact absurd rfl (hfunction ',' hcomma).2

end Undivided

section Lists

variable {items others : List String}

/-- The first item of a list ends at the first comma outside of parentheses. -/
theorem Undivided.append_comma_inj {item other : String} (hitem : Undivided item) (hother : Undivided other)
    {rest rest' : List Char} (h : item.toList ++ ',' :: rest = other.toList ++ ',' :: rest') :
    item = other ∧ rest = rest' := by
  -- A longer item would have the comma behind the shorter one, where no parenthesis is open.
  rcases List.append_eq_append_iff.1 h with ⟨more, hcut, hrest⟩ | ⟨more, hcut, hrest⟩
  · cases more with
    | nil =>
      rw [List.append_nil] at hcut
      exact ⟨String.toList_inj.1 hcut.symm, (List.cons.inj hrest).2⟩
    | cons c more =>
      rw [← (List.cons.inj hrest).1] at hcut
      exact absurd hitem.balanced (hother.enclosed _ _ hcut)
  · cases more with
    | nil =>
      rw [List.append_nil] at hcut
      exact ⟨String.toList_inj.1 hcut, (List.cons.inj hrest).2.symm⟩
    | cons c more =>
      rw [← (List.cons.inj hrest).1] at hcut
      exact absurd hother.balanced (hitem.enclosed _ _ hcut)

theorem toList_intercalate_comma (first second : String) (rest : List String) :
    (", ".intercalate (first :: second :: rest)).toList =
      first.toList ++ ',' :: ' ' :: (", ".intercalate (second :: rest)).toList := by
  rw [String.intercalate_cons_cons, String.toList_append, String.toList_append, List.append_assoc]
  rfl

/-- **Commas cut a list.** Undivided items are determined by their list. -/
theorem intercalate_comma_inj (hitems : ∀ item ∈ items, Undivided item)
    (hothers : ∀ item ∈ others, Undivided item) (hne : items ≠ []) (hne' : others ≠ [])
    (h : ", ".intercalate items = ", ".intercalate others) : items = others := by
  induction items generalizing others with
  | nil => exact absurd rfl hne
  | cons first rest ih =>
    cases others with
    | nil => exact absurd rfl hne'
    | cons first' rest' =>
      obtain ⟨hfirst, hrest⟩ := List.forall_mem_cons.1 hitems
      obtain ⟨hfirst', hrest'⟩ := List.forall_mem_cons.1 hothers
      cases rest with
      | nil =>
        cases rest' with
        | nil => rwa [String.intercalate_singleton, String.intercalate_singleton, ← List.singleton_inj] at h
        | cons second' rest' =>
          rw [String.intercalate_singleton, ← String.toList_inj, toList_intercalate_comma] at h
          exact absurd hfirst'.balanced (hfirst.enclosed _ _ h)
      | cons second rest =>
        cases rest' with
        | nil =>
          rw [String.intercalate_singleton, ← String.toList_inj, toList_intercalate_comma] at h
          exact absurd hfirst.balanced (hfirst'.enclosed _ _ h.symm)
        | cons second' rest' =>
          rw [← String.toList_inj, toList_intercalate_comma, toList_intercalate_comma] at h
          obtain ⟨rfl, hmore⟩ := hfirst.append_comma_inj hfirst' h
          rw [ih hrest hrest' (List.cons_ne_nil _ _) (List.cons_ne_nil _ _)
            (String.toList_inj.1 (List.cons.inj hmore).2)]

end Lists

end SingleTable
