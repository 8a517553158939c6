import Mathlib.Data.List.Basic
import Mathlib.Data.List.TakeWhile
import SingleTable.Proofs.Expression.Plain
import SingleTable.Proofs.Expression.Tokens

/-!
# The placeholders that an expression shows

An expression shows placeholders of two kinds, names behind the mark `#` and values behind the mark `:`. Both
are read in the same way: a mark with the longest run of token characters behind it. A text that is put
together of parts shows what its parts show, if the texts between the parts are gaps: no mark stands in a gap,
and a gap ends every placeholder before it (`shown_gap`, `shown_intercalate`). The operand of a handle shows
what the steps of its path show; of a plain handle these are the tokens of the names that it binds.
-/

set_option autoImplicit false

namespace SingleTable

/-- The marks of placeholders. -/
inductive Mark where
  /-- The mark of names. -/
  | name
  /-- The mark of values. -/
  | value

/-- The character of a mark. -/
def Mark.char : Mark → Char
  | name => '#'
  | value => ':'

/-- The placeholders behind a mark, in order and with repetitions. -/
def tokensBehind (mark : Mark) : List Char → List String
  | [] => []
  | c :: rest =>
    if c = mark.char ∧ (rest.takeWhile isTokenChar).isEmpty = false then
      String.ofList (mark.char :: rest.takeWhile isTokenChar) ::
        tokensBehind mark (rest.dropWhile isTokenChar)
    else tokensBehind mark rest
termination_by text => text.length
decreasing_by
  · exact Nat.lt_succ_of_le (List.dropWhile_sublist _).length_le
  · exact Nat.lt_succ_self _

/-- The placeholders behind a mark that an expression shows. -/
def shown (mark : Mark) (expression : String) : List String := tokensBehind mark expression.toList

/-- The value tokens of an expression in order and with repetitions. -/
def valueTokens (expression : String) : List String := shown .value expression

/-- The name tokens of an expression are the placeholders behind the mark of names. -/
theorem shown_name (expression : String) : shown .name expression = nameTokens expression := by
  rw [shown, nameTokens]
  -- Both functions take the same run behind a mark and go on behind it.
  induction expression.toList using pieces.induct with
  | case1 => simp [pieces, tokensBehind]
  | case2 c rest hmark ih =>
    obtain ⟨rfl, hrun⟩ := hmark
    rw [tokensBehind, if_pos ⟨rfl, hrun⟩, pieces, if_pos ⟨rfl, hrun⟩, ih]
    rfl
  | case3 c rest hmark ih =>
    have hother : ¬ (c = Mark.name.char ∧ (rest.takeWhile isTokenChar).isEmpty = false) := hmark
    rw [tokensBehind, if_neg hother, pieces, if_neg hmark, ih]
    rfl

/-! ## Lists of characters -/

section Chars

variable {mark : Mark} {front back : List Char}

/-- The placeholders of a text can be read from both of its parts if no placeholder reaches over the cut. -/
theorem tokensBehind_append (h : Stops back) :
    tokensBehind mark (front ++ back) = tokensBehind mark front ++ tokensBehind mark back := by
  -- A run of the front stops at the cut at the latest, so it is the same run in the whole text.
  induction front using tokensBehind.induct mark with
  | case1 => simp [tokensBehind]
  | case2 c rest hmark ih =>
    rw [List.cons_append, tokensBehind, takeWhile_append_of_stop h, dropWhile_append_of_stop h,
      if_pos hmark, ih, tokensBehind, if_pos hmark, List.cons_append]
  | case3 c rest hmark ih =>
    rw [List.cons_append, tokensBehind, takeWhile_append_of_stop h, if_neg hmark, ih, tokensBehind,
      if_neg hmark]

/-- A text without the mark shows nothing and hides nothing of what follows. -/
theorem tokensBehind_append_of_no_mark (h : mark.char ∉ front) :
    tokensBehind mark (front ++ back) = tokensBehind mark back := by
  induction front with
  | nil => rfl
  | cons c rest ih =>
    rw [List.mem_cons, not_or] at h
    rw [List.cons_append, tokensBehind, if_neg fun hmark => h.1 hmark.1.symm, ih h.2]

/-- A mark with a run of token characters behind it is one placeholder. -/
theorem tokensBehind_run {run : List Char} (hne : run ≠ []) (h : ∀ c ∈ run, isTokenChar c = true) :
    tokensBehind mark (mark.char :: run) = [String.ofList (mark.char :: run)] := by
  have htake : run.takeWhile isTokenChar = run := List.takeWhile_eq_self_iff.2 h
  have hdrop : run.dropWhile isTokenChar = [] := List.dropWhile_eq_nil_iff.2 h
  rw [tokensBehind, htake, hdrop, if_pos ⟨rfl, by simpa using hne⟩, tokensBehind]

/-- A placeholder is the mark with token characters behind it. -/
theorem exists_run_of_mem {token : String} {text : List Char} (h : token ∈ tokensBehind mark text) :
    ∃ run : List Char, token = String.ofList (mark.char :: run) ∧ run ≠ [] ∧
      ∀ c ∈ run, isTokenChar c = true := by
  induction text using tokensBehind.induct mark with
  | case1 => simp [tokensBehind] at h
  | case2 c rest hmark ih =>
    rw [tokensBehind, if_pos hmark] at h
    rcases List.mem_cons.1 h with rfl | hrest
    · exact ⟨_, rfl, by simpa using hmark.2, List.all_eq_true.1 List.all_takeWhile⟩
    · exact ih hrest
  | case3 c rest hmark ih =>
    rw [tokensBehind, if_neg hmark] at h
    exact ih h

end Chars

/-! ## Gaps -/

/-- A text without marks. -/
def IsUnmarked (text : String) : Prop := ∀ c ∈ text.toList, c ≠ '#' ∧ c ≠ ':'

instance (text : String) : Decidable (IsUnmarked text) := List.decidableBAll _ _

/-- A text without marks that ends every placeholder before it. -/
structure IsGap (text : String) : Prop where
  /-- The text starts with a character that cannot stand in a placeholder. -/
  stops : text.toList.head?.any (fun c => !isTokenChar c) = true
  /-- No placeholder starts in the text. -/
  unmarked : IsUnmarked text

instance (text : String) : Decidable (IsGap text) :=
  decidable_of_iff (text.toList.head?.any (fun c => !isTokenChar c) = true ∧ IsUnmarked text)
    ⟨fun h => ⟨h.1, h.2⟩, fun h => ⟨h.stops, h.unmarked⟩⟩

section Gaps

variable {mark : Mark} {gap : String}

theorem IsUnmarked.char_not_mem {text : String} (h : IsUnmarked text) (mark : Mark) :
    mark.char ∉ text.toList := by
  intro hmem
  cases mark with
  | name => exact (h _ hmem).1 rfl
  | value => exact (h _ hmem).2 rfl

theorem shown_empty : shown mark "" = [] := by simp [shown, tokensBehind]

theorem shown_unmarked_append {front : String} (h : IsUnmarked front) (back : String) :
    shown mark (front ++ back) = shown mark back := by
  rw [shown, String.toList_append, tokensBehind_append_of_no_mark (h.char_not_mem mark), shown]

theorem shown_unmarked {text : String} (h : IsUnmarked text) : shown mark text = [] := by
  have happend : shown mark (text ++ "") = shown mark "" := shown_unmarked_append h ""
  rwa [String.append_empty, shown_empty] at happend

/-- What stands on both sides of a cut is shown if the second part starts with no token character. -/
theorem shown_append {front back : String} (h : Stops back.toList) :
    shown mark (front ++ back) = shown mark front ++ shown mark back := by
  rw [shown, String.toList_append, tokensBehind_append h, shown, shown]

/-- Parts with a gap between them show what they show alone. -/
theorem shown_gap (h : IsGap gap) (front back : String) :
    shown mark (front ++ (gap ++ back)) = shown mark front ++ shown mark back := by
  have hstops : Stops (gap ++ back).toList := by
    intro c hc
    have hhead := h.stops
    rw [String.toList_append] at hc
    -- A gap is not empty, so what follows starts with its first character.
    cases hlist : gap.toList with
    | nil => simp [hlist] at hhead
    | cons first rest =>
      simp only [hlist, List.cons_append, List.head?_cons, Option.mem_some_iff] at hc
      simpa [hlist, hc] using hhead
  rw [shown_append hstops, shown_unmarked_append h.unmarked]

theorem shown_end (h : IsGap gap) (front : String) : shown mark (front ++ gap) = shown mark front := by
  have happend : shown mark (front ++ (gap ++ "")) = shown mark front ++ shown mark "" := shown_gap h front ""
  rwa [String.append_empty, shown_empty, List.append_nil] at happend

/-- A list with gaps shows what its items show. -/
theorem shown_intercalate (h : IsGap gap) (parts : List String) :
    shown mark (gap.intercalate parts) = parts.flatMap (shown mark) := by
  induction parts with
  | nil => exact shown_empty
  | cons part rest ih =>
    cases rest with
    | nil => simp
    | cons next rest =>
      rw [String.intercalate_cons_cons, String.append_assoc, shown_gap h, ih]
      rfl

/-- A text in parentheses shows what the text shows. -/
theorem shown_parentheses (text : String) : shown mark ("(" ++ text ++ ")") = shown mark text := by
  have hclose : IsGap ")" := by decide +kernel
  have hopen : IsUnmarked "(" := by decide +kernel
  rw [shown_end hclose, shown_unmarked_append hopen]

end Gaps

/-! ## Operands -/

section Operands

variable {mark : Mark} {handle : Handle} {name : String} {step : PathStep}

/-- The indexes of a step are empty or start with a bracket, so they end the token of its name. -/
theorem stops_indexes (h : step ∈ handle.steps) : Stops step.indexes.toList := by
  intro c hc
  rw [Handle.steps] at h
  split at h
  · rw [List.mem_singleton.1 h] at hc
    cases hc
  · obtain ⟨part, -, rfl⟩ := List.mem_map.1 h
    -- The indexes of a part start where its name stops.
    have hbracket : c = '[' := by
      have hhead := List.head?_dropWhile_not (· != '[') part
      simp only [PathStep.ofPart, String.toList_ofList] at hc
      rw [Option.mem_def.1 hc] at hhead
      simpa using hhead
    rw [hbracket]
    decide +kernel

/-- The operand of a handle shows what its steps show, one after the other. -/
theorem shown_operand (handle : Handle) :
    shown mark handle.operand.text =
      handle.steps.flatMap fun step => shown mark (nameToken step.name) ++ shown mark step.indexes := by
  have hpoint : IsGap "." := by decide +kernel
  rw [Handle.operand_eq]
  dsimp only
  rw [shown_intercalate hpoint, List.flatMap_map]
  apply List.flatMap_congr
  intro step hstep
  exact shown_append (stops_indexes hstep)

/-- The token of a name of token characters is all that it shows. -/
theorem shown_nameToken (hne : name ≠ "") (h : ∀ c ∈ name.toList, isTokenChar c = true) :
    shown .name (nameToken name) = [nameToken name] := by
  have hlist : (nameToken name).toList = Mark.name.char :: name.toList := String.toList_append
  have hnil : name.toList ≠ [] := by simpa using hne
  rw [shown, hlist, tokensBehind_run hnil h, ← hlist, String.ofList_toList]

theorem IsPlainName.unmarked (h : IsPlainName name) : IsUnmarked name := fun c hc => (h.chars c hc).2

/-- The token of a plain name shows no value. -/
theorem IsPlainName.shown_value_nameToken (h : IsPlainName name) : shown .value (nameToken name) = [] := by
  have hmem : Mark.value.char ∉ (nameToken name).toList := by
    rw [nameToken, String.toList_append, List.mem_append, not_or]
    exact ⟨by decide +kernel, h.unmarked.char_not_mem .value⟩
  rw [shown, ← List.append_nil (nameToken name).toList, tokensBehind_append_of_no_mark hmem, tokensBehind]

/-- The indexes of a plain step show nothing. -/
theorem PathStep.IsPlain.shown_indexes (h : step.IsPlain) : shown mark step.indexes = [] := by
  apply shown_unmarked
  intro c hc
  rcases h.indexes c hc with rfl | rfl | hdigit
  · decide
  · decide
  · exact (isPlainChar_of_isDigit hdigit).2

/-- A name token tells its name. -/
theorem nameToken_inj {other : String} (h : nameToken name = nameToken other) : name = other :=
  (String.append_right_inj _).1 h

/-- A handle binds the tokens of the names of its steps to these names. -/
theorem mem_names_iff {token : String} :
    (token, name) ∈ handle.operand.names ↔ token = nameToken name ∧ ∃ step ∈ handle.steps, step.name = name := by
  rw [Handle.operand_eq, List.mem_map]
  constructor
  · rintro ⟨step, hstep, heq⟩
    cases heq
    exact ⟨rfl, step, hstep, rfl⟩
  · rintro ⟨rfl, step, hstep, rfl⟩
    exact ⟨step, hstep, rfl⟩

/-- A token stands for one name in an operand. -/
theorem eq_of_mem_names {token other : String} (h : (token, name) ∈ handle.operand.names)
    (h' : (token, other) ∈ handle.operand.names) : name = other :=
  nameToken_inj ((mem_names_iff.1 h).1.symm.trans (mem_names_iff.1 h').1)

/-- **A plain operand shows the names that it binds.** -/
theorem Handle.IsPlain.shown_name_operand (h : handle.IsPlain) :
    shown .name handle.operand.text = handle.operand.names.map Prod.fst := by
  rw [shown_operand, Handle.operand_eq, List.map_map, List.map_eq_flatMap]
  -- Each step shows one token.
  apply List.flatMap_congr
  intro step hstep
  obtain ⟨hname, hindexes⟩ := h.of_mem_steps hstep
  rw [shown_nameToken hname.nonempty fun c hc => (hname.chars c hc).1,
    PathStep.IsPlain.shown_indexes ⟨hname, hindexes⟩, List.append_nil]
  rfl

/-- A plain operand binds the names that it shows. -/
theorem Handle.IsPlain.mem_names_iff (h : handle.IsPlain) {token : String} :
    (token, name) ∈ handle.operand.names ↔
      token = nameToken name ∧ token ∈ shown .name handle.operand.text := by
  rw [h.shown_name_operand]
  constructor
  · intro hmem
    exact ⟨(SingleTable.mem_names_iff.1 hmem).1, List.mem_map_of_mem hmem⟩
  · rintro ⟨rfl, hmem⟩
    obtain ⟨⟨token, found⟩, hfound, htoken⟩ := List.mem_map.1 hmem
    obtain rfl : token = nameToken name := htoken
    obtain rfl := nameToken_inj (SingleTable.mem_names_iff.1 hfound).1
    exact hfound

/-- A plain operand shows no value. -/
theorem Handle.IsPlain.shown_value_operand (h : handle.IsPlain) :
    shown .value handle.operand.text = [] := by
  rw [shown_operand, List.flatMap_eq_nil_iff]
  intro step hstep
  have hplain := h.of_mem_steps hstep
  rw [hplain.name.shown_value_nameToken, hplain.shown_indexes, List.append_nil]

end Operands

end SingleTable
