import Mathlib.Tactic.SplitIfs
import SingleTable.Json.Printer
import SingleTable.Json.Token

/-!
# Strings are read as they were written

Every character of a text is written as itself or as an escape, and reading gives back its code, up to the
closing mark (`stringUnits_flatMap_printChar`). The code of a character is no half of a surrogate pair, so the codes
join to the text again (`stringToken_toNat`).
-/

set_option autoImplicit false

namespace SingleTable.Json

/-! ## One character -/

theorem hexValue?_hexDigit {n : Nat} (h : n < 16) : hexValue? (hexDigit n) = some n := by
  have hall : ∀ n < 16, hexValue? (hexDigit n) = some n := by decide
  exact hall n h

/-- A character that needs no escape is read as itself. -/
theorem stringUnits_plain {c : Char} (hmark : c ≠ '"') (hescape : c ≠ '\\') (hcontrol : ¬ c.toNat < 0x20)
    (rest : List Char) :
    stringUnits (c :: rest) = (stringUnits rest).map fun found => (c.toNat :: found.1, found.2) := by
  rw [stringUnits, if_neg (not_or.2 ⟨hcontrol, hescape⟩)]
  · cases stringUnits rest with
    | none => rfl
    | some found => rfl
  · exact hmark
  · intro a b c d tail hc _
    exact hescape hc
  · intro letter tail hc _
    exact hescape hc

/-- An escape by a letter is read as the character that it stands for. -/
theorem stringUnits_letter {letter c : Char} (hescaped : escaped? letter = some c) (rest : List Char) :
    stringUnits ('\\' :: letter :: rest) =
      (stringUnits rest).map fun found => (c.toNat :: found.1, found.2) := by
  have hletter : letter ≠ 'u' := by
    rintro rfl
    cases hescaped
  rw [stringUnits, hescaped]
  · cases stringUnits rest with
    | none => rfl
    | some found => rfl
  · intro a b c d tail hu _
    exact hletter hu

/-- An escape by digits is read as the unit that they stand for. -/
theorem stringUnits_digits {n : Nat} (h : n < 256) (rest : List Char) :
    stringUnits ('\\' :: 'u' :: '0' :: '0' :: hexDigit (n / 16) :: hexDigit (n % 16) :: rest) =
      (stringUnits rest).map fun found => (n :: found.1, found.2) := by
  have hzero : hexValue? '0' = some 0 := rfl
  have hjoin : ((0 * 16 + 0) * 16 + n / 16) * 16 + n % 16 = n := by omega
  rw [stringUnits, hzero, hexValue?_hexDigit (by omega), hexValue?_hexDigit (by omega)]
  cases stringUnits rest with
  | none => rfl
  | some found =>
    dsimp only [bind, Option.bind]
    rw [hjoin]
    rfl

/-- A written character is read as its code. -/
theorem stringUnits_printChar (c : Char) (rest : List Char) :
    stringUnits (printChar c ++ rest) =
      (stringUnits rest).map fun found => (c.toNat :: found.1, found.2) := by
  rw [printChar]
  split_ifs with hmark hescape hbackspace htab hnewline hfeed hreturn hcontrol
  · subst hmark
    exact stringUnits_letter rfl rest
  · subst hescape
    exact stringUnits_letter rfl rest
  · subst hbackspace
    exact stringUnits_letter rfl rest
  · subst htab
    exact stringUnits_letter rfl rest
  · subst hnewline
    exact stringUnits_letter rfl rest
  · subst hfeed
    exact stringUnits_letter rfl rest
  · subst hreturn
    exact stringUnits_letter rfl rest
  · exact stringUnits_digits (by omega) rest
  · exact stringUnits_plain hmark hescape hcontrol rest

/-! ## Texts -/

/-- A written text is read as the codes of its characters, up to the closing mark. -/
theorem stringUnits_flatMap_printChar (text rest : List Char) :
    stringUnits (text.flatMap printChar ++ '"' :: rest) = some (text.map Char.toNat, rest) := by
  induction text with
  | nil => rw [List.flatMap_nil, List.nil_append, stringUnits, List.map_nil]
  | cons c text ih =>
    rw [List.flatMap_cons, List.append_assoc, stringUnits_printChar, ih]
    rfl

/-- The codes of characters join to the characters. -/
theorem joinPairs_map_toNat (text : List Char) : joinPairs (text.map Char.toNat) = some text := by
  induction text with
  | nil => rfl
  | cons c text ih =>
    have hvalid : c.toNat < 0xD800 ∨ 0xDFFF < c.toNat := by
      rcases c.valid with hlow | ⟨hhigh, -⟩
      · exact Or.inl hlow
      · exact Or.inr hhigh
    rw [List.map_cons, joinPairs.eq_def]
    dsimp only
    rw [if_neg (by omega), if_neg (by omega), ih, Char.ofNat_toNat]
    rfl

/-- The token of the codes of a text is the text. -/
theorem stringToken_toNat (text : String) : stringToken (text.toList.map Char.toNat) = .text text := by
  rw [stringToken, joinPairs_map_toNat]
  exact congrArg Token.text String.ofList_toList

end SingleTable.Json
