import SingleTable.Expression.Update
import SingleTable.Proofs.Text.Words

/-!
# The grammar of update texts

An update text is read as clauses in their fixed order. A clause is its word followed by its actions, with
commas between them. The text of an action is undivided and contains no word that starts a clause. A text has
at most one reading of this kind (`Reads.unique`): the words that start clauses cut the words of the text, and
the commas outside of parentheses cut what stands behind each of them.
-/

set_option autoImplicit false

namespace SingleTable

/-! ## Readings -/

/-- A word that starts a clause. -/
def Clause.Starts (word : String) : Prop := ∃ clause : Clause, word = clause.word

instance (word : String) : Decidable (Clause.Starts word) :=
  decidable_of_iff (word ∈ Clause.inOrder.map Clause.word) <| by
    rw [List.mem_map, Clause.Starts]
    refine exists_congr fun clause => ?_
    cases clause <;> simp [Clause.inOrder, eq_comm]

/-- A text that can stand in a clause as one of its actions. -/
structure IsActionText (text : String) : Prop where
  /-- Every comma of the text stands inside of parentheses. -/
  undivided : Undivided text
  /-- No word of the text starts a clause. -/
  words : ∀ word ∈ wordsOf text, ¬ Clause.Starts word

/-- A clause with the texts of its actions. -/
structure ClauseText where
  /-- The clause. -/
  clause : Clause
  /-- The texts of the actions in order. -/
  actions : List String

namespace ClauseText

/-- The actions of a clause with commas between them. -/
def body (part : ClauseText) : String := ", ".intercalate part.actions

/-- The text of a clause. -/
def text (part : ClauseText) : String := part.clause.word ++ " " ++ part.body

/-- A clause that the grammar allows: it has an action, and its actions have the texts of actions. -/
structure IsGrammatical (part : ClauseText) : Prop where
  /-- The clause has an action. -/
  nonempty : part.actions ≠ []
  /-- The actions can be told from what stands around them. -/
  actions : ∀ text ∈ part.actions, IsActionText text

end ClauseText

/-- Clauses are a reading of a text. -/
structure Reads (parts : List ClauseText) (text : String) : Prop where
  /-- No clause comes twice, and they stand in their fixed order. -/
  ordered : (parts.map ClauseText.clause).Sublist Clause.inOrder
  /-- The grammar allows each clause. -/
  grammatical : ∀ part ∈ parts, part.IsGrammatical
  /-- The clauses make up the text. -/
  text_eq : " ".intercalate (parts.map ClauseText.text) = text

/-! ## Words that start clauses -/

namespace Clause

theorem isWord_word (clause : Clause) : IsWord clause.word := by
  cases clause <;> decide +kernel

theorem word_ne_empty (clause : Clause) : clause.word ≠ "" := by
  cases clause <;> decide +kernel

theorem word_inj {clause other : Clause} (h : clause.word = other.word) : clause = other := by
  cases clause <;> cases other <;> first | rfl | exact absurd h (by decide +kernel)

/-- The first letters of the words that start clauses. -/
def initials : List Char := ['S', 'R', 'A', 'D']

/-- A word with another first letter starts no clause. -/
theorem not_starts_of_head? {word : String} {c : Char} (h : word.toList.head? = some c) (hc : c ∉ initials) :
    ¬ Starts word := by
  rintro ⟨clause, rfl⟩
  have hinitial : ∀ d, clause.word.toList.head? = some d → d ∈ initials := by
    cases clause <;> simp [word, initials]
  exact hc (hinitial c h)

/-- A word with a comma behind it starts no clause. -/
theorem not_starts_append_comma (stem : String) : ¬ Starts (stem ++ ",") := by
  rintro ⟨clause, h⟩
  have hcomma : ',' ∈ clause.word.toList := by
    rw [← h, String.toList_append]
    exact List.mem_append_right _ List.mem_cons_self
  cases clause <;> exact absurd hcomma (by decide +kernel)

end Clause

/-- No word in a list of actions starts a clause. -/
theorem not_starts_of_mem_list {actions : List String} (h : ∀ text ∈ actions, IsActionText text)
    {word : String} (hword : word ∈ wordsOf (", ".intercalate actions)) : ¬ Clause.Starts word := by
  induction actions with
  | nil =>
    have hempty : IsWord "" := by decide +kernel
    rw [String.intercalate_nil, wordsOf_of_isWord hempty, List.mem_singleton] at hword
    rw [hword]
    exact fun ⟨clause, hclause⟩ => clause.word_ne_empty hclause.symm
  | cons first rest ih =>
    obtain ⟨hfirst, hrest⟩ := List.forall_mem_cons.1 h
    cases rest with
    | nil =>
      rw [String.intercalate_singleton] at hword
      exact hfirst.words word hword
    | cons second rest =>
      have hsplit : first ++ ", " = first ++ "," ++ " " := by
        rw [String.append_assoc]
        rfl
      rw [String.intercalate_cons_cons, hsplit, wordsOf_append_blank, List.mem_append] at hword
      rcases hword with hword | hword
      · rcases mem_wordsOf_append_comma hword with hword | ⟨stem, rfl⟩
        · exact hfirst.words word hword
        · exact Clause.not_starts_append_comma stem
      · exact ih hrest hword

/-! ## Unambiguity -/

namespace ClauseText

variable {part other : ClauseText}

theorem wordsOf_text (part : ClauseText) : wordsOf part.text = part.clause.word :: wordsOf part.body := by
  rw [text, wordsOf_append_blank, wordsOf_of_isWord part.clause.isWord_word, List.singleton_append]

theorem text_ne_empty (part : ClauseText) : part.text ≠ "" := by
  intro hempty
  have hwords := part.wordsOf_text
  rw [hempty, wordsOf_of_isWord (by decide +kernel)] at hwords
  exact part.clause.word_ne_empty (List.cons.inj hwords).1.symm

/-- A clause is determined by its word and the words behind it. -/
theorem IsGrammatical.eq_of_words (h : part.IsGrammatical) (hother : other.IsGrammatical)
    (hword : part.clause.word = other.clause.word) (hbody : wordsOf part.body = wordsOf other.body) :
    part = other := by
  have hactions : part.actions = other.actions :=
    intercalate_comma_inj (fun text htext => (h.actions text htext).undivided)
      (fun text htext => (hother.actions text htext).undivided) h.nonempty hother.nonempty (wordsOf_inj hbody)
  cases part
  cases other
  cases Clause.word_inj hword
  cases hactions
  rfl

/-- The words of clauses are cut by the words that start them. -/
theorem eq_of_flatMap_words {parts others : List ClauseText} (hparts : ∀ part ∈ parts, part.IsGrammatical)
    (hothers : ∀ part ∈ others, part.IsGrammatical)
    (h : parts.flatMap (fun part => wordsOf part.text) = others.flatMap fun part => wordsOf part.text) :
    parts = others := by
  have hcut : ∀ list : List ClauseText, list.flatMap (fun part => wordsOf part.text) =
      (list.map fun part => (part.clause.word, wordsOf part.body)).flatMap fun part => part.1 :: part.2 := by
    intro list
    rw [List.flatMap_map]
    exact congrArg (List.flatMap · list) (funext wordsOf_text)
  have hmarks : ∀ list : List ClauseText, (∀ part ∈ list, part.IsGrammatical) →
      ∀ part ∈ list.map fun part => (part.clause.word, wordsOf part.body),
        Clause.Starts part.1 ∧ ∀ item ∈ part.2, ¬ Clause.Starts item := by
    intro list hlist part hpart
    obtain ⟨origin, horigin, rfl⟩ := List.mem_map.1 hpart
    exact ⟨⟨origin.clause, rfl⟩, fun item hitem =>
      not_starts_of_mem_list (hlist origin horigin).actions hitem⟩
  rw [hcut, hcut] at h
  have hsame := flatMap_cons_inj (hmarks parts hparts) (hmarks others hothers) h
  clear h hcut hmarks
  -- The clauses are the same one by one, as their words are.
  induction parts generalizing others with
  | nil =>
    cases others with
    | nil => rfl
    | cons other others => cases hsame
  | cons part parts ih =>
    cases others with
    | nil => cases hsame
    | cons other others =>
      obtain ⟨hpart, hmore⟩ := List.forall_mem_cons.1 hparts
      obtain ⟨hother, hmore'⟩ := List.forall_mem_cons.1 hothers
      rw [List.map_cons, List.map_cons] at hsame
      obtain ⟨hfirst, hrest⟩ := List.cons.inj hsame
      obtain ⟨hword, hbody⟩ := Prod.mk.inj hfirst
      rw [hpart.eq_of_words hother hword hbody, ih hmore hmore' hrest]

end ClauseText

/-- The text of clauses has the words of each. -/
theorem wordsOf_clauses {parts : List ClauseText} (h : parts ≠ []) :
    wordsOf (" ".intercalate (parts.map ClauseText.text)) = parts.flatMap fun part => wordsOf part.text := by
  rw [wordsOf_intercalate (mt List.map_eq_nil_iff.1 h), List.flatMap_map]

/-- Clauses have a text. -/
theorem clauses_eq_empty_iff {parts : List ClauseText} :
    " ".intercalate (parts.map ClauseText.text) = "" ↔ parts = [] := by
  constructor
  · intro hempty
    cases parts with
    | nil => rfl
    | cons part rest =>
      have hwords := wordsOf_clauses (List.cons_ne_nil part rest)
      rw [hempty, wordsOf_of_isWord (by decide +kernel), List.flatMap_cons, ClauseText.wordsOf_text,
        List.cons_append] at hwords
      exact absurd (List.cons.inj hwords).1.symm part.clause.word_ne_empty
  · rintro rfl
    rfl

/-- **A text has one reading.** -/
theorem Reads.unique {parts others : List ClauseText} {text : String} (h : Reads parts text)
    (hothers : Reads others text) : parts = others := by
  have htext := h.text_eq.trans hothers.text_eq.symm
  by_cases hparts : parts = []
  · have hnil : others = [] := by rw [← clauses_eq_empty_iff, ← htext, clauses_eq_empty_iff, hparts]
    rw [hparts, hnil]
  · have hne : others ≠ [] := by rwa [Ne, ← clauses_eq_empty_iff, ← htext, clauses_eq_empty_iff]
    refine ClauseText.eq_of_flatMap_words h.grammatical hothers.grammatical ?_
    rw [← wordsOf_clauses hparts, htext, wordsOf_clauses hne]

end SingleTable
