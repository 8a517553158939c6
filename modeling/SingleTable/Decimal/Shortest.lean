import SingleTable.Decimal.Binary

/-!
# Shortest decimals

The text of a floating point number has the fewest digits that read back as the same number, and of
those the nearest to it. A decimal of `n` digits that reads back exists exactly if one of the two
neighbours of the number on its grid of `n` digits does, so the grids are tried from the coarsest
on. The text is positional at any size: no exponent, and no point in a whole number.
-/

set_option autoImplicit false

namespace SingleTable.Decimal

/-- The decimal `digits * 10 ^ power`. -/
structure Scaled where
  /-- The digits as a whole number. -/
  digits : Nat
  /-- The power of ten. -/
  power : Int

/-- The number of decimal digits of a whole number, one for zero. -/
def digitCount (n : Nat) : Nat := (Nat.toDigits 10 n).length

/-- The position of the first digit: a positive fraction is below `10 ^ p` and at least
`10 ^ (p - 1)`. -/
def Ratio.leading (ratio : Ratio) : Int :=
  if ratio.den ≤ ratio.num then digitCount (ratio.num / ratio.den)
  else 1 - digitCount ((ratio.den + ratio.num - 1) / ratio.num - 1)

/-- The neighbour of a magnitude on a decimal grid that rounds to it, the nearer one of two, and the
upper one at equal distance. -/
def Magnitude.onGrid (magnitude : Magnitude) (power : Int) : Option Scaled :=
  let value := magnitude.value.shift (-power)
  let below := value.num / value.den
  let remainder := value.num % value.den
  match magnitude.covers below power, magnitude.covers (below + 1) power with
  | true, true => some ⟨if 2 * remainder < value.den then below else below + 1, power⟩
  | true, false => some ⟨below, power⟩
  | false, true => some ⟨below + 1, power⟩
  | false, false => none

/-- Moves zeros from the end of the digits to the power of ten. -/
def Scaled.strip : Nat → Scaled → Scaled
  | 0, decimal => decimal
  | fuel + 1, decimal =>
    if decimal.digits ≠ 0 ∧ decimal.digits % 10 = 0 then
      strip fuel ⟨decimal.digits / 10, decimal.power + 1⟩
    else decimal

/-- The shortest decimal that rounds to a positive magnitude. Seventeen digits are enough for every
format up to 64 bits. -/
def Magnitude.shortest (magnitude : Magnitude) : Scaled :=
  let leading := magnitude.value.leading
  let grids := (List.range 17).map fun (extra : Nat) => leading - 1 - (extra : Int)
  let decimal := (grids.findSome? magnitude.onGrid).getD ⟨0, 0⟩
  decimal.strip 20

/-- The positional text of a decimal. -/
def Scaled.text (decimal : Scaled) : String :=
  let digits := Nat.toDigits 10 decimal.digits
  if 0 ≤ decimal.power then
    String.ofList (digits ++ List.replicate decimal.power.toNat '0')
  else
    let places := (-decimal.power).toNat
    if places < digits.length then
      let whole := digits.length - places
      String.ofList (digits.take whole ++ '.' :: digits.drop whole)
    else
      String.ofList ('0' :: '.' :: List.replicate (places - digits.length) '0' ++ digits)

/-- The words for what has no digits. -/
structure Wording where
  /-- The word for an infinity. -/
  infinite : String
  /-- The word for a pattern that stands for no number. -/
  undefined : String

/-- The words that number texts of the table use. -/
def wording : Wording := ⟨"inf", "NaN"⟩

/-- A text after its sign. -/
def signed (negative : Bool) (text : String) : String := if negative then "-" ++ text else text

/-- The text of the number that a bit pattern stands for. -/
def BinaryFormat.text (format : BinaryFormat) (bits : Nat) : String :=
  match format.read bits with
  | .undefined => wording.undefined
  | .infinite negative => signed negative wording.infinite
  | .finite negative magnitude =>
    signed negative (if magnitude.significand = 0 then "0" else magnitude.shortest.text)

end SingleTable.Decimal
