/-!
# Tokens of JSON texts

The lexical level of a document: punctuation, literals, numbers and strings, separated by blanks,
tabs and line ends. A text that goes on with no token ends in the token `fault`.
-/

set_option autoImplicit false

namespace SingleTable.Json

/-- A lexical element of a document. -/
inductive Token where
  | openBrace
  | closeBrace
  | openBracket
  | closeBracket
  | colon
  | comma
  | null
  | boolean (value : Bool)
  | integer (negative : Bool) (magnitude : Nat)
  | fraction
  | text (value : String)
  | unpaired
  | fault
  deriving DecidableEq

/-! ## Strings -/

/-- The value of a hexadecimal digit of either case. -/
def hexValue? (c : Char) : Option Nat :=
  let n := c.toNat
  if 48 ≤ n ∧ n ≤ 57 then some (n - 48)
  else if 97 ≤ n ∧ n ≤ 102 then some (n - 87)
  else if 65 ≤ n ∧ n ≤ 70 then some (n - 55)
  else none

/-- The character that a one-letter escape stands for. -/
def escaped? (c : Char) : Option Char :=
  if c = '"' ∨ c = '\\' ∨ c = '/' then some c
  else if c = 'b' then some '\x08'
  else if c = 'f' then some '\x0c'
  else if c = 'n' then some '\n'
  else if c = 'r' then some '\r'
  else if c = 't' then some '\t'
  else none

/-- Reads a string behind its opening mark: its code units, where an escape with four digits is one
unit even if it is half of a pair, and the text behind the closing mark. -/
def stringUnits : List Char → Option (List Nat × List Char)
  | [] => none
  | '"' :: rest => some ([], rest)
  | '\\' :: 'u' :: a :: b :: c :: d :: rest => do
    let unit := (((← hexValue? a) * 16 + (← hexValue? b)) * 16 + (← hexValue? c)) * 16 +
      (← hexValue? d)
    let (units, rest) ← stringUnits rest
    some (unit :: units, rest)
  | '\\' :: letter :: rest => do
    let c ← escaped? letter
    let (units, rest) ← stringUnits rest
    some (c.toNat :: units, rest)
  | c :: rest =>
    if c.toNat < 0x20 ∨ c = '\\' then none
    else do
      let (units, rest) ← stringUnits rest
      some (c.toNat :: units, rest)

/-- The rest behind a string is shorter than its text. -/
theorem length_lt_of_stringUnits {text rest : List Char} {units : List Nat}
    (h : stringUnits text = some (units, rest)) : rest.length < text.length := by
  fun_induction stringUnits text generalizing units rest with
  | case1 => simp at h
  | case2 => simp_all
  | case3 a b c d tail ih =>
    simp only [bind, Option.bind_eq_some_iff] at h
    obtain ⟨_, _, _, _, _, _, _, _, ⟨_, _⟩, hrest, h⟩ := h
    have := ih hrest
    simp_all
    omega
  | case4 letter tail _ ih =>
    simp only [bind, Option.bind_eq_some_iff] at h
    obtain ⟨_, _, ⟨_, _⟩, hrest, h⟩ := h
    have := ih hrest
    simp_all
    omega
  | case5 => simp at h
  | case6 c tail _ _ _ _ ih =>
    simp only [bind, Option.bind_eq_some_iff] at h
    obtain ⟨⟨_, _⟩, hrest, h⟩ := h
    have := ih hrest
    simp_all
    omega

/-- Joins surrogate pairs; there is no text for a surrogate without its partner. -/
def joinPairs : List Nat → Option (List Char)
  | [] => some []
  | unit :: rest =>
    if 0xD800 ≤ unit ∧ unit ≤ 0xDBFF then
      match rest with
      | low :: rest =>
        if 0xDC00 ≤ low ∧ low ≤ 0xDFFF then do
          let chars ← joinPairs rest
          some (Char.ofNat (0x10000 + (unit - 0xD800) * 0x400 + (low - 0xDC00)) :: chars)
        else none
      | [] => none
    else if 0xDC00 ≤ unit ∧ unit ≤ 0xDFFF then none
    else do
      let chars ← joinPairs rest
      some (Char.ofNat unit :: chars)

/-- The token of a string with the given code units. -/
def stringToken (units : List Nat) : Token :=
  match joinPairs units with
  | some chars => .text (String.ofList chars)
  | none => .unpaired

/-! ## Numbers -/

/-- The text behind a run of digits, if there is at least one. -/
def behindDigits? (text : List Char) : Option (List Char) :=
  if (text.takeWhile Char.isDigit).isEmpty then none else some (text.dropWhile Char.isDigit)

/-- The text behind a sign, or the text itself if it starts with none. -/
def behindSign : List Char → List Char
  | '+' :: rest => rest
  | '-' :: rest => rest
  | text => text

/-- Reads the fraction that may follow the whole part of a number: whether there is one, and the text
behind it. -/
def fraction? : List Char → Option (Bool × List Char)
  | '.' :: rest => (behindDigits? rest).map fun rest => (true, rest)
  | text => some (false, text)

/-- Reads the exponent that may end a number: whether there is one, and the text behind it. -/
def exponent? : List Char → Option (Bool × List Char)
  | 'e' :: rest => (behindDigits? (behindSign rest)).map fun rest => (true, rest)
  | 'E' :: rest => (behindDigits? (behindSign rest)).map fun rest => (true, rest)
  | text => some (false, text)

/-- Reads a number behind its sign. A whole part of several digits does not start with zero. -/
def number? (negative : Bool) (text : List Char) : Option (Token × List Char) := do
  let digits := text.takeWhile Char.isDigit
  if digits.isEmpty ∨ (digits.head? = some '0' ∧ 1 < digits.length) then none
  else do
    let (hasFraction, rest) ← fraction? (text.dropWhile Char.isDigit)
    let (hasExponent, rest) ← exponent? rest
    let token := if hasFraction || hasExponent then .fraction
      else .integer negative (Nat.ofDigitChars 10 digits 0)
    some (token, rest)

/-- The text behind a run of digits is no longer than the whole. -/
theorem length_le_of_behindDigits? {text rest : List Char} (h : behindDigits? text = some rest) :
    rest.length ≤ text.length := by
  unfold behindDigits? at h
  split at h
  · simp at h
  · cases h
    exact (List.dropWhile_sublist _).length_le

/-- The text behind a sign is no longer than the whole. -/
theorem length_behindSign_le (text : List Char) : (behindSign text).length ≤ text.length := by
  unfold behindSign
  split <;> simp

/-- The text behind a fraction is no longer than the whole. -/
theorem length_le_of_fraction? {text rest : List Char} {found : Bool}
    (h : fraction? text = some (found, rest)) : rest.length ≤ text.length := by
  unfold fraction? at h
  split at h
  · simp only [Option.map_eq_some_iff, Prod.mk.injEq] at h
    obtain ⟨_, hrest, _, rfl⟩ := h
    exact Nat.le_succ_of_le (length_le_of_behindDigits? hrest)
  · simp only [Option.some.injEq, Prod.mk.injEq] at h
    exact Nat.le_of_eq (congrArg List.length h.2.symm)

/-- The text behind an exponent is no longer than the whole. -/
theorem length_le_of_exponent? {text rest : List Char} {found : Bool}
    (h : exponent? text = some (found, rest)) : rest.length ≤ text.length := by
  have hletter : ∀ {tail : List Char},
      (behindDigits? (behindSign tail)).map (fun rest => (true, rest)) = some (found, rest) →
        rest.length ≤ tail.length + 1 := by
    intro tail htail
    simp only [Option.map_eq_some_iff, Prod.mk.injEq] at htail
    obtain ⟨_, hrest, _, rfl⟩ := htail
    exact Nat.le_succ_of_le
      (Nat.le_trans (length_le_of_behindDigits? hrest) (length_behindSign_le tail))
  unfold exponent? at h
  split at h
  · exact hletter h
  · exact hletter h
  · simp only [Option.some.injEq, Prod.mk.injEq] at h
    exact Nat.le_of_eq (congrArg List.length h.2.symm)

/-- The text behind a number is shorter than the whole. -/
theorem length_lt_of_number? {negative : Bool} {text rest : List Char} {token : Token}
    (h : number? negative text = some (token, rest)) : rest.length < text.length := by
  unfold number? at h
  dsimp only at h
  split at h
  · simp at h
  · rename_i hdigits
    simp only [bind, Option.bind_eq_some_iff, Option.some.injEq, Prod.mk.injEq] at h
    obtain ⟨⟨_, middle⟩, hfraction, ⟨_, _⟩, hexponent, _, rfl⟩ := h
    have hle := Nat.le_trans (length_le_of_exponent? hexponent) (length_le_of_fraction? hfraction)
    dsimp only
    have hsplit := congrArg List.length
      (List.takeWhile_append_dropWhile (p := Char.isDigit) (l := text))
    have hpos : (text.takeWhile Char.isDigit).length ≠ 0 := fun hzero =>
      hdigits (Or.inl (List.isEmpty_iff_length_eq_zero.2 hzero))
    rw [List.length_append] at hsplit
    omega

/-! ## Texts -/

/-- The tokens of a text. -/
def tokens (text : List Char) : List Token :=
  match text with
  | [] => []
  | c :: rest =>
    if c = ' ' ∨ c = '\n' ∨ c = '\t' ∨ c = '\r' then tokens rest
    else if c = '\x7b' then .openBrace :: tokens rest
    else if c = '\x7d' then .closeBrace :: tokens rest
    else if c = '[' then .openBracket :: tokens rest
    else if c = ']' then .closeBracket :: tokens rest
    else if c = ':' then .colon :: tokens rest
    else if c = ',' then .comma :: tokens rest
    else if c = '"' then
      match h : stringUnits rest with
      | some (units, rest') =>
        have := length_lt_of_stringUnits h
        stringToken units :: tokens rest'
      | none => [.fault]
    else if c = '-' then
      match h : number? true rest with
      | some (token, rest') =>
        have := length_lt_of_number? h
        token :: tokens rest'
      | none => [.fault]
    else if c.isDigit then
      match h : number? false (c :: rest) with
      | some (token, rest') =>
        have := length_lt_of_number? h
        token :: tokens rest'
      | none => [.fault]
    else
      match c, rest with
      | 'n', 'u' :: 'l' :: 'l' :: rest => .null :: tokens rest
      | 't', 'r' :: 'u' :: 'e' :: rest => .boolean true :: tokens rest
      | 'f', 'a' :: 'l' :: 's' :: 'e' :: rest => .boolean false :: tokens rest
      | _, _ => [.fault]
termination_by text.length
decreasing_by all_goals simp_all; try omega

end SingleTable.Json
