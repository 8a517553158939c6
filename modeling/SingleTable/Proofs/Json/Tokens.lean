import Mathlib.Data.Nat.Digits.Defs
import SingleTable.Proofs.Json.Strings

/-!
# Tokens of written documents

The text of a tree is cut into the tokens of the tree, whatever stands behind it (`tokens_print`), as long as
that does not go on with a number: it is only there that what follows decides where a token ends
(`IsDelimited`). Inside a document a value is followed by a comma or a closing mark, so the condition passes on
from a document to its parts.
-/

set_option autoImplicit false

namespace SingleTable.Json

/-! ## Numbers -/

/-- A text that does not go on with the number before it: it is empty or starts with the mark that ends an
item of an array or a member of an object. -/
def IsDelimited (text : List Char) : Prop := ∀ c ∈ text.head?, c = ',' ∨ c = ']' ∨ c = '\x7d'

section Delimited

variable {text : List Char}

theorem IsDelimited.head_not_digit (h : IsDelimited text) : ∀ c ∈ text.head?, c.isDigit = false := by
  intro c hc
  rcases h c hc with rfl | rfl | rfl <;> rfl

/-- The text does not go on with a character that is none of the three marks. -/
theorem IsDelimited.ne_cons (h : IsDelimited text) {c : Char} (hc : c ≠ ',' ∧ c ≠ ']' ∧ c ≠ '\x7d')
    (rest : List Char) : text ≠ c :: rest := by
  rintro rfl
  rcases h c rfl with rfl | rfl | rfl
  · exact hc.1 rfl
  · exact hc.2.1 rfl
  · exact hc.2.2 rfl

theorem fraction?_delimited (h : IsDelimited text) : fraction? text = some (false, text) := by
  rw [fraction?]
  exact fun rest => h.ne_cons (by decide) rest

theorem exponent?_delimited (h : IsDelimited text) : exponent? text = some (false, text) := by
  rw [exponent?]
  · exact fun rest => h.ne_cons (by decide) rest
  · exact fun rest => h.ne_cons (by decide) rest

end Delimited

/-- A numeral of several digits does not start with zero. -/
theorem head?_toDigits {n : Nat} (h : 10 ≤ n) : (Nat.toDigits 10 n).head? ≠ some '0' := by
  induction n using Nat.strong_induction_on with
  | _ n ih =>
    rw [Nat.toDigits_of_base_le (by decide) h, List.head?_append]
    by_cases hsmall : n / 10 < 10
    · rw [Nat.toDigits_of_lt_base hsmall]
      have hall : ∀ m < 10, m ≠ 0 → Nat.digitChar m ≠ '0' := by decide
      have hne := hall (n / 10) hsmall (by omega)
      simpa using hne
    · have hne := ih (n / 10) (by omega) (by omega)
      cases hhead : (Nat.toDigits 10 (n / 10)).head? with
      | none => exact absurd (List.head?_eq_none_iff.1 hhead) Nat.toDigits_ne_nil
      | some c =>
        rw [hhead] at hne
        exact hne

theorem takeWhile_toDigits (n : Nat) {rest : List Char} (h : IsDelimited rest) :
    (Nat.toDigits 10 n ++ rest).takeWhile Char.isDigit = Nat.toDigits 10 n ∧
      (Nat.toDigits 10 n ++ rest).dropWhile Char.isDigit = rest := by
  have hdigits : ∀ c ∈ Nat.toDigits 10 n, c.isDigit = true := fun c hc =>
    Nat.isDigit_of_mem_toDigits (by decide) (by decide) hc
  rw [List.takeWhile_append_of_pos hdigits, List.dropWhile_append_of_pos hdigits]
  cases rest with
  | nil => simp
  | cons c rest =>
    have hc := h.head_not_digit c rfl
    simp [hc]

/-- A written numeral is read as the integer with its sign. -/
theorem number?_toDigits (negative : Bool) (n : Nat) {rest : List Char} (h : IsDelimited rest) :
    number? negative (Nat.toDigits 10 n ++ rest) = some (.integer negative n, rest) := by
  obtain ⟨htake, hdrop⟩ := takeWhile_toDigits n h
  have hshort : ¬ ((Nat.toDigits 10 n).isEmpty = true ∨
      ((Nat.toDigits 10 n).head? = some '0' ∧ 1 < (Nat.toDigits 10 n).length)) := by
    rintro (hempty | ⟨hzero, hlong⟩)
    · exact Nat.toDigits_ne_nil (List.isEmpty_iff.1 hempty)
    · by_cases hn : n < 10
      · rw [Nat.toDigits_of_lt_base hn] at hlong
        exact absurd hlong (Nat.lt_irrefl 1)
      · exact head?_toDigits (by omega) hzero
  rw [number?, htake, hdrop]
  dsimp only
  rw [if_neg hshort, fraction?_delimited h]
  dsimp only [bind, Option.bind]
  rw [exponent?_delimited h]
  dsimp only
  rw [Nat.ofDigitChars_toDigits (by decide) (by decide)]
  rfl

/-- A number with a fraction is read as such. -/
theorem number?_fraction {rest : List Char} (h : IsDelimited rest) :
    number? false ('0' :: '.' :: '5' :: rest) = some (.fraction, rest) := by
  obtain ⟨htake, hdrop⟩ := takeWhile_toDigits 5 h
  have htake : ('5' :: rest).takeWhile Char.isDigit = ['5'] := htake
  have hdrop : ('5' :: rest).dropWhile Char.isDigit = rest := hdrop
  have hfraction : fraction? ('.' :: '5' :: rest) = some (true, rest) := by
    rw [fraction?, behindDigits?, htake, hdrop]
    rfl
  have hfirst : ('0' :: '.' :: '5' :: rest).takeWhile Char.isDigit = ['0'] := rfl
  have hbehind : ('0' :: '.' :: '5' :: rest).dropWhile Char.isDigit = '.' :: '5' :: rest := rfl
  rw [number?, hfirst, hbehind]
  dsimp only
  rw [if_neg (by decide), hfraction]
  dsimp only [bind, Option.bind]
  rw [exponent?_delimited h]
  rfl

/-! ## Single tokens -/

section Single

variable (rest : List Char)

theorem tokens_null : tokens ('n' :: 'u' :: 'l' :: 'l' :: rest) = .null :: tokens rest := by
  rw [tokens.eq_def]
  rfl

theorem tokens_true : tokens ('t' :: 'r' :: 'u' :: 'e' :: rest) = .boolean true :: tokens rest := by
  rw [tokens.eq_def]
  rfl

theorem tokens_false : tokens ('f' :: 'a' :: 'l' :: 's' :: 'e' :: rest) = .boolean false :: tokens rest := by
  rw [tokens.eq_def]
  rfl

theorem tokens_openBrace : tokens ('\x7b' :: rest) = .openBrace :: tokens rest := by
  rw [tokens.eq_def]
  rfl

theorem tokens_closeBrace : tokens ('\x7d' :: rest) = .closeBrace :: tokens rest := by
  rw [tokens.eq_def]
  rfl

theorem tokens_openBracket : tokens ('[' :: rest) = .openBracket :: tokens rest := by
  rw [tokens.eq_def]
  rfl

theorem tokens_closeBracket : tokens (']' :: rest) = .closeBracket :: tokens rest := by
  rw [tokens.eq_def]
  rfl

theorem tokens_colon : tokens (':' :: rest) = .colon :: tokens rest := by
  rw [tokens.eq_def]
  rfl

theorem tokens_comma : tokens (',' :: rest) = .comma :: tokens rest := by
  rw [tokens.eq_def]
  rfl

end Single

section Found

variable {rest tail : List Char} {token : Token}

/-- A string behind its mark. -/
theorem tokens_quote {units : List Nat} (h : stringUnits rest = some (units, tail)) :
    tokens ('"' :: rest) = stringToken units :: tokens tail := by
  rw [tokens.eq_def]
  dsimp only
  rw [if_neg (by decide), if_neg (by decide), if_neg (by decide), if_neg (by decide), if_neg (by decide),
    if_neg (by decide), if_neg (by decide), if_pos rfl]
  split
  · rename_i hfound
    rw [h] at hfound
    cases hfound
    rfl
  · rename_i hnone
    rw [h] at hnone
    cases hnone

/-- A number behind its sign. -/
theorem tokens_minus (h : number? true rest = some (token, tail)) :
    tokens ('-' :: rest) = token :: tokens tail := by
  rw [tokens.eq_def]
  dsimp only
  rw [if_neg (by decide), if_neg (by decide), if_neg (by decide), if_neg (by decide), if_neg (by decide),
    if_neg (by decide), if_neg (by decide), if_neg (by decide), if_pos rfl]
  split
  · rename_i hfound
    rw [h] at hfound
    cases hfound
    rfl
  · rename_i hnone
    rw [h] at hnone
    cases hnone

/-- A number without a sign. -/
theorem tokens_digit {c : Char} (hc : c.isDigit = true) (h : number? false (c :: rest) = some (token, tail)) :
    tokens (c :: rest) = token :: tokens tail := by
  have hne : ∀ d : Char, d.isDigit = false → c ≠ d := by
    rintro d hd rfl
    rw [hc] at hd
    cases hd
  have hblank : ¬ (c = ' ' ∨ c = '\n' ∨ c = '\t' ∨ c = '\r') := by
    rintro (hblank | hblank | hblank | hblank)
    · exact hne _ rfl hblank
    · exact hne _ rfl hblank
    · exact hne _ rfl hblank
    · exact hne _ rfl hblank
  rw [tokens.eq_def]
  dsimp only
  rw [if_neg hblank, if_neg (hne _ rfl), if_neg (hne _ rfl), if_neg (hne _ rfl), if_neg (hne _ rfl),
    if_neg (hne _ rfl), if_neg (hne _ rfl), if_neg (hne _ rfl), if_neg (hne _ rfl), if_pos hc]
  split
  · rename_i hfound
    rw [h] at hfound
    cases hfound
    rfl
  · rename_i hnone
    rw [h] at hnone
    cases hnone

end Found

theorem tokens_printString (text : String) (rest : List Char) :
    tokens (printString text ++ rest) = .text text :: tokens rest := by
  rw [printString, List.cons_append, List.cons_append, List.append_assoc, List.singleton_append,
    tokens_quote (stringUnits_flatMap_printChar text.toList rest), stringToken_toNat]

theorem tokens_printUnpaired (rest : List Char) :
    tokens (printUnpaired ++ rest) = .unpaired :: tokens rest := by
  have hunits : stringUnits ('\\' :: 'u' :: 'd' :: '8' :: '0' :: '0' :: '"' :: rest) =
      some ([0xD800], rest) := by
    rw [stringUnits, stringUnits]
    rfl
  exact tokens_quote hunits

theorem tokens_integer (negative : Bool) (n : Nat) {rest : List Char} (h : IsDelimited rest) :
    tokens (print (.integer negative n) ++ rest) = .integer negative n :: tokens rest := by
  have hnumber := number?_toDigits negative n h
  rw [print]
  cases negative with
  | true => exact tokens_minus hnumber
  | false =>
    rw [if_neg Bool.false_ne_true, List.nil_append]
    cases hdigits : Nat.toDigits 10 n with
    | nil => exact absurd hdigits Nat.toDigits_ne_nil
    | cons c more =>
      have hc : c ∈ Nat.toDigits 10 n := hdigits ▸ List.mem_cons_self
      rw [hdigits] at hnumber
      exact tokens_digit (Nat.isDigit_of_mem_toDigits (by decide) (by decide) hc) hnumber

/-- The token of the name of a member. -/
def Token.ofName : Option String → Token
  | some name => .text name
  | none => .unpaired

theorem tokens_printName (name : Option String) (rest : List Char) :
    tokens (printName name ++ rest) = Token.ofName name :: tokens rest := by
  cases name with
  | some name => exact tokens_printString name rest
  | none => exact tokens_printUnpaired rest

/-! ## Documents -/

mutual

/-- The tokens of a tree. A fault has none. -/
def Tree.toTokens : Tree → List Token
  | .null => [.null]
  | .boolean value => [.boolean value]
  | .integer negative magnitude => [.integer negative magnitude]
  | .fraction => [.fraction]
  | .text value => [.text value]
  | .unpaired => [.unpaired]
  | .array items => .openBracket :: itemTokens items ++ [.closeBracket]
  | .object members => .openBrace :: memberTokens members ++ [.closeBrace]
  | .broken => []

/-- The tokens of the items of an array. -/
def itemTokens : List Tree → List Token
  | [] => []
  | [item] => item.toTokens
  | item :: rest => item.toTokens ++ .comma :: itemTokens rest

/-- The tokens of the members of an object. -/
def memberTokens : List (Option String × Tree) → List Token
  | [] => []
  | [(name, value)] => Token.ofName name :: .colon :: value.toTokens
  | (name, value) :: rest => Token.ofName name :: .colon :: value.toTokens ++ .comma :: memberTokens rest

end

/-! ## Written texts -/

theorem printItems_cons_cons (item next : Tree) (rest : List Tree) :
    printItems (item :: next :: rest) = print item ++ ',' :: printItems (next :: rest) := by
  rw [printItems]
  exact List.cons_ne_nil next rest

theorem printMembers_cons_cons (name : Option String) (value : Tree) (next : Option String × Tree)
    (rest : List (Option String × Tree)) :
    printMembers ((name, value) :: next :: rest) =
      printName name ++ ':' :: print value ++ ',' :: printMembers (next :: rest) := by
  rw [printMembers]
  exact List.cons_ne_nil next rest

theorem itemTokens_cons_cons (item next : Tree) (rest : List Tree) :
    itemTokens (item :: next :: rest) = item.toTokens ++ .comma :: itemTokens (next :: rest) := by
  rw [itemTokens]
  exact List.cons_ne_nil next rest

theorem memberTokens_cons_cons (name : Option String) (value : Tree) (next : Option String × Tree)
    (rest : List (Option String × Tree)) :
    memberTokens ((name, value) :: next :: rest) =
      .ofName name :: .colon :: value.toTokens ++ .comma :: memberTokens (next :: rest) := by
  rw [memberTokens]
  exact List.cons_ne_nil next rest

theorem isDelimited_nil : IsDelimited [] := nofun

theorem isDelimited_comma (rest : List Char) : IsDelimited (',' :: rest) :=
  fun _ hc => Or.inl (Option.some.inj hc).symm

theorem isDelimited_closeBracket (rest : List Char) : IsDelimited (']' :: rest) :=
  fun _ hc => Or.inr (Or.inl (Option.some.inj hc).symm)

theorem isDelimited_closeBrace (rest : List Char) : IsDelimited ('\x7d' :: rest) :=
  fun _ hc => Or.inr (Or.inr (Option.some.inj hc).symm)

mutual

/-- A written tree without a fault is cut into its tokens, up to the text behind it. -/
theorem tokens_print (tree : Tree) (hintact : tree.intact = true) {rest : List Char}
    (h : IsDelimited rest) : tokens (print tree ++ rest) = tree.toTokens ++ tokens rest := by
  cases tree with
  | null => exact tokens_null rest
  | boolean value =>
    cases value with
    | true => exact tokens_true rest
    | false => exact tokens_false rest
  | integer negative magnitude => exact tokens_integer negative magnitude h
  | fraction => exact tokens_digit rfl (number?_fraction h)
  | text value => exact tokens_printString value rest
  | unpaired => exact tokens_printUnpaired rest
  | array items =>
    rw [Tree.intact] at hintact
    rw [print, Tree.toTokens, List.cons_append, List.cons_append, List.append_assoc,
      List.singleton_append, tokens_openBracket, tokens_printItems items hintact, List.cons_append,
      List.cons_append, List.append_assoc, List.singleton_append]
  | object members =>
    rw [Tree.intact] at hintact
    rw [print, Tree.toTokens, List.cons_append, List.cons_append, List.append_assoc,
      List.singleton_append, tokens_openBrace, tokens_printMembers members hintact, List.cons_append,
      List.cons_append, List.append_assoc, List.singleton_append]
  | broken => cases hintact

/-- The items of a written array are cut into their tokens, up to its closing bracket. -/
theorem tokens_printItems (items : List Tree) (hintact : Tree.intactItems items = true)
    (rest : List Char) :
    tokens (printItems items ++ ']' :: rest) = itemTokens items ++ .closeBracket :: tokens rest := by
  cases items with
  | nil => exact tokens_closeBracket rest
  | cons item more =>
    rw [Tree.intactItems, Bool.and_eq_true] at hintact
    cases more with
    | nil =>
      rw [printItems, itemTokens, tokens_print item hintact.1 (isDelimited_closeBracket rest),
        tokens_closeBracket]
    | cons next more =>
      have hmore := tokens_printItems (next :: more) hintact.2 rest
      rw [printItems_cons_cons, itemTokens_cons_cons, List.append_assoc, List.cons_append,
        tokens_print item hintact.1 (isDelimited_comma _), tokens_comma, hmore, List.append_assoc,
        List.cons_append]

/-- The members of a written object are cut into their tokens, up to its closing brace. -/
theorem tokens_printMembers (members : List (Option String × Tree))
    (hintact : Tree.intactMembers members = true) (rest : List Char) :
    tokens (printMembers members ++ '\x7d' :: rest) =
      memberTokens members ++ .closeBrace :: tokens rest := by
  cases members with
  | nil => exact tokens_closeBrace rest
  | cons member more =>
    obtain ⟨name, value⟩ := member
    rw [Tree.intactMembers, Bool.and_eq_true] at hintact
    cases more with
    | nil =>
      rw [printMembers, memberTokens, List.append_assoc, List.cons_append, tokens_printName, tokens_colon,
        tokens_print value hintact.1 (isDelimited_closeBrace rest), tokens_closeBrace]
      rfl
    | cons next more =>
      have hmore := tokens_printMembers (next :: more) hintact.2 rest
      rw [printMembers_cons_cons, memberTokens_cons_cons, List.append_assoc, List.cons_append,
        List.append_assoc, List.cons_append, tokens_printName, tokens_colon,
        tokens_print value hintact.1 (isDelimited_comma _), tokens_comma, hmore]
      simp only [List.cons_append, List.append_assoc]

end

end SingleTable.Json
