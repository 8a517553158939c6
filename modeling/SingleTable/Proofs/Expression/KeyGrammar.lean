import SingleTable.Proofs.Condition.Attribute
import SingleTable.Proofs.Text.Words

/-!
# The grammar of key expressions

A key expression is read as tests on keys with `AND` between them, without parentheses. A range holds an `AND`
of its own, so the word alone does not cut a text. It is cut from left to right instead: the first words of a
test tell its form, and the form tells how many words the test has (`KeyTest.words_append_inj`). So a text has
at most one reading (`KeyReads.unique`).
-/

set_option autoImplicit false

namespace SingleTable

/-! ## Readings -/

/-- A test on a key as a key expression shows it. -/
inductive KeyTest where
  /-- A comparison with a value. -/
  | compare (comparison : Comparison) (key value : String)
  /-- A range with both of its ends. -/
  | between (key low high : String)
  /-- A beginning. -/
  | beginsWith (key start : String)
  deriving DecidableEq

/-- A placeholder for a value: a colon and some characters of a token. -/
def IsPlaceholder (text : String) : Prop := ∃ name, IsTokenName name ∧ text = ":" ++ name

instance (text : String) : Decidable (IsPlaceholder text) :=
  let name := String.ofList text.toList.tail
  decidable_of_iff (IsTokenName name ∧ text = ":" ++ name) <| by
    constructor
    · intro h
      exact ⟨name, h⟩
    · rintro ⟨found, hfound, rfl⟩
      have hname : name = found := by simp [name]
      rw [hname]
      exact ⟨hfound, rfl⟩

namespace KeyTest

/-- The name of the key. -/
def key : KeyTest → String
  | compare _ key _ => key
  | between key _ _ => key
  | beginsWith key _ => key

/-- The placeholders in order. -/
def placeholders : KeyTest → List String
  | compare _ _ value => [value]
  | between _ low high => [low, high]
  | beginsWith _ start => [start]

/-- The kind of the test. -/
def kind : KeyTest → LeafKind
  | compare comparison _ _ => .compare comparison
  | between _ _ _ => .between
  | beginsWith _ _ => .beginsWith

/-- The text of a test. -/
def text : KeyTest → String
  | compare comparison key value => nameToken key ++ " " ++ comparison.sign ++ " " ++ value
  | between key low high => nameToken key ++ " BETWEEN " ++ low ++ " AND " ++ high
  | beginsWith key start => Test.call "begins_with" [nameToken key, start]

/-- The words of a test. -/
def words : KeyTest → List String
  | compare comparison key value => [nameToken key, comparison.sign, value]
  | between key low high => [nameToken key, "BETWEEN", low, "AND", high]
  | beginsWith key start => ["begins_with(" ++ nameToken key ++ ",", start ++ ")"]

/-- A test that the grammar allows: its key is named by one token, and it has placeholders for its values. -/
structure IsGrammatical (part : KeyTest) : Prop where
  /-- The name of the key is one token. -/
  key : IsTokenName part.key
  /-- Values are shown by placeholders. -/
  placeholders : ∀ placeholder ∈ part.placeholders, IsPlaceholder placeholder
  /-- The table answers the test from the order of keys. -/
  kind : part.kind.isKeyTest = true

instance (part : KeyTest) : Decidable part.IsGrammatical :=
  decidable_of_iff (IsTokenName part.key ∧ (∀ placeholder ∈ part.placeholders, IsPlaceholder placeholder) ∧
      part.kind.isKeyTest = true)
    ⟨fun h => ⟨h.1, h.2.1, h.2.2⟩, fun h => ⟨h.key, h.placeholders, h.kind⟩⟩

end KeyTest

/-- Tests on keys are a reading of a text. -/
structure KeyReads (parts : List KeyTest) (text : String) : Prop where
  /-- The grammar allows each test. -/
  grammatical : ∀ part ∈ parts, part.IsGrammatical
  /-- The tests make up the text. -/
  text_eq : " AND ".intercalate (parts.map KeyTest.text) = text

instance (parts : List KeyTest) (text : String) : Decidable (KeyReads parts text) :=
  decidable_of_iff ((∀ part ∈ parts, part.IsGrammatical) ∧ " AND ".intercalate (parts.map KeyTest.text) = text)
    ⟨fun h => ⟨h.1, h.2⟩, fun h => ⟨h.grammatical, h.text_eq⟩⟩

/-! ## Words of a test -/

theorem IsTokenName.isWord {name : String} (h : IsTokenName name) : IsWord name := by
  intro hblank
  exact absurd (h.chars ' ' hblank) (by decide)

theorem IsTokenName.isWord_nameToken {name : String} (h : IsTokenName name) : IsWord (nameToken name) := by
  have hmark : IsWord "#" := by decide +kernel
  exact hmark.append h.isWord

theorem IsPlaceholder.isWord {text : String} (h : IsPlaceholder text) : IsWord text := by
  have hcolon : IsWord ":" := by decide +kernel
  obtain ⟨name, hname, rfl⟩ := h
  exact hcolon.append hname.isWord

theorem isWord_sign (comparison : Comparison) : IsWord comparison.sign := by
  cases comparison <;> decide +kernel

theorem sign_inj {comparison other : Comparison} (h : comparison.sign = other.sign) : comparison = other := by
  cases comparison <;> cases other <;> first | rfl | exact absurd h (by decide +kernel)

theorem sign_ne_between (comparison : Comparison) : comparison.sign ≠ "BETWEEN" := by
  cases comparison <;> decide +kernel

/-- A name token does not start like a call. -/
theorem nameToken_ne_call (name other : String) :
    nameToken name ≠ "begins_with(" ++ nameToken other ++ "," := by
  intro h
  have hcall : "begins_with(".toList.head? = some 'b' := by decide +kernel
  have hhead := head?_append (head?_append hcall (nameToken other)) ","
  rw [← h, head?_nameToken] at hhead
  exact absurd hhead (by decide)

namespace KeyTest

variable {part other : KeyTest}

/-- The first words of a test tell its form, and so where it ends. -/
theorem words_append_inj {rest rest' : List String} (h : part.words ++ rest = other.words ++ rest') :
    part = other ∧ rest = rest' := by
  cases part <;> cases other <;>
    simp only [words, List.cons_append, List.nil_append, List.cons.injEq, true_and] at h
  case compare.compare comparison key value comparison' key' value' =>
    obtain ⟨hkey, hsign, rfl, hrest⟩ := h
    rw [nameToken_inj hkey, sign_inj hsign]
    exact ⟨rfl, hrest⟩
  case compare.between comparison key value key' low high =>
    exact absurd h.2.1 (sign_ne_between comparison)
  case compare.beginsWith comparison key value key' start =>
    exact absurd h.1 (nameToken_ne_call key key')
  case between.compare key low high comparison key' value =>
    exact absurd h.2.1.symm (sign_ne_between comparison)
  case between.between key low high key' low' high' =>
    obtain ⟨hkey, rfl, rfl, hrest⟩ := h
    rw [nameToken_inj hkey]
    exact ⟨rfl, hrest⟩
  case between.beginsWith key low high key' start =>
    exact absurd h.1 (nameToken_ne_call key key')
  case beginsWith.compare key start comparison key' value =>
    exact absurd h.1.symm (nameToken_ne_call key' key)
  case beginsWith.between key start key' low high =>
    exact absurd h.1.symm (nameToken_ne_call key' key)
  case beginsWith.beginsWith key start key' start' =>
    obtain ⟨hcall, hstart, hrest⟩ := h
    have hkey := (String.append_right_inj _).1 ((String.append_left_inj _).1 hcall)
    rw [nameToken_inj hkey, (String.append_left_inj _).1 hstart]
    exact ⟨rfl, hrest⟩

/-- A test is written with blanks between its words. -/
theorem text_eq_intercalate (part : KeyTest) : part.text = " ".intercalate part.words := by
  apply String.toList_inj.1
  cases part <;> simp [text, words, Test.call]

/-- No word of a test that the grammar allows holds a blank. -/
theorem IsGrammatical.isWord (h : part.IsGrammatical) : ∀ word ∈ part.words, IsWord word := by
  have hkey : IsWord (nameToken part.key) := h.key.isWord_nameToken
  have hplaceholders : ∀ placeholder ∈ part.placeholders, IsWord placeholder :=
    fun placeholder hmem => (h.placeholders placeholder hmem).isWord
  cases part with
  | compare comparison key value =>
    exact List.forall_mem_cons.2 ⟨hkey, List.forall_mem_cons.2 ⟨isWord_sign comparison, hplaceholders⟩⟩
  | between key low high =>
    have hbetween : IsWord "BETWEEN" := by decide +kernel
    have hand : IsWord "AND" := by decide +kernel
    obtain ⟨hlow, hhigh⟩ := List.forall_mem_cons.1 hplaceholders
    have hback := List.forall_mem_cons.2 ⟨hlow, List.forall_mem_cons.2 ⟨hand, hhigh⟩⟩
    exact List.forall_mem_cons.2 ⟨hkey, List.forall_mem_cons.2 ⟨hbetween, hback⟩⟩
  | beginsWith key start =>
    have hopen : IsWord "begins_with(" := by decide +kernel
    have hcomma : IsWord "," := by decide +kernel
    have hclose : IsWord ")" := by decide +kernel
    obtain ⟨hstart, hnone⟩ := List.forall_mem_cons.1 hplaceholders
    refine List.forall_mem_cons.2 ⟨?_, List.forall_mem_cons.2 ⟨?_, hnone⟩⟩
    · exact (hopen.append hkey).append hcomma
    · exact hstart.append hclose

/-- A test that the grammar allows is read word by word. -/
theorem IsGrammatical.wordsOf_text (h : part.IsGrammatical) : wordsOf part.text = part.words := by
  have hne : part.words ≠ [] := by cases part <;> exact List.cons_ne_nil _ _
  rw [text_eq_intercalate, wordsOf_intercalate_words hne h.isWord]

theorem text_ne_empty (part : KeyTest) : part.text ≠ "" := by
  intro hempty
  have hlength := congrArg String.length hempty
  cases part <;> simp [text, nameToken, Test.call] at hlength

/-! ## Unambiguity -/

/-- The text of tests has the words of each, with an `AND` before all but the first. -/
theorem wordsOf_joined {rest : List KeyTest} (h : ∀ test ∈ part :: rest, test.IsGrammatical) :
    wordsOf (" AND ".intercalate ((part :: rest).map text)) =
      part.words ++ rest.flatMap fun test => "AND" :: test.words := by
  induction rest generalizing part with
  | nil =>
    rw [List.map_singleton, String.intercalate_singleton, (h part List.mem_cons_self).wordsOf_text,
      List.flatMap_nil, List.append_nil]
  | cons second rest ih =>
    obtain ⟨hpart, hrest⟩ := List.forall_mem_cons.1 h
    have hand : IsWord "AND" := by decide +kernel
    have hblanks : part.text ++ " AND " = part.text ++ " " ++ "AND" ++ " " := by
      rw [String.append_assoc, String.append_assoc]
      rfl
    rw [List.map_cons, List.map_cons, String.intercalate_cons_cons, hblanks, wordsOf_append_blank,
      wordsOf_append_blank, hpart.wordsOf_text, wordsOf_of_isWord hand, ← List.map_cons, ih hrest,
      List.flatMap_cons, List.append_assoc]
    rfl

/-- Tests that each stand behind an `AND` are determined by their words. -/
theorem flatMap_words_inj {parts others : List KeyTest}
    (h : (parts.flatMap fun test => "AND" :: test.words) = others.flatMap fun test => "AND" :: test.words) :
    parts = others := by
  induction parts generalizing others with
  | nil =>
    cases others with
    | nil => rfl
    | cons other others => cases h
  | cons part parts ih =>
    cases others with
    | nil => cases h
    | cons other others =>
      rw [List.flatMap_cons, List.flatMap_cons, List.cons_append, List.cons_append] at h
      obtain ⟨rfl, hmore⟩ := words_append_inj (List.cons.inj h).2
      rw [ih hmore]

/-- Tests have a text. -/
theorem joined_eq_empty_iff {parts : List KeyTest} :
    " AND ".intercalate (parts.map text) = "" ↔ parts = [] := by
  constructor
  · intro hempty
    cases parts with
    | nil => rfl
    | cons part rest =>
      have hmem : part.text ∈ (part :: rest).map text := List.mem_map_of_mem List.mem_cons_self
      have hlength := length_le_intercalate " AND " hmem
      rw [hempty] at hlength
      exact absurd (String.length_eq_zero_iff.1 (Nat.le_zero.1 hlength)) part.text_ne_empty
  · rintro rfl
    rfl

end KeyTest

/-- **A text has one reading.** -/
theorem KeyReads.unique {parts others : List KeyTest} {text : String} (h : KeyReads parts text)
    (hothers : KeyReads others text) : parts = others := by
  have htext := h.text_eq.trans hothers.text_eq.symm
  cases parts with
  | nil => exact (KeyTest.joined_eq_empty_iff.1 htext.symm).symm
  | cons part rest =>
    cases others with
    | nil => exact KeyTest.joined_eq_empty_iff.1 htext
    | cons other rest' =>
      have hwords := congrArg wordsOf htext
      rw [KeyTest.wordsOf_joined h.grammatical, KeyTest.wordsOf_joined hothers.grammatical] at hwords
      -- The first tests end at the same word, and so each side has the same words behind them.
      obtain ⟨rfl, hrest⟩ := KeyTest.words_append_inj hwords
      rw [KeyTest.flatMap_words_inj hrest]

end SingleTable
