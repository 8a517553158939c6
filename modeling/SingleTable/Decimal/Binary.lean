/-!
# Binary floating point numbers as exact quantities

A bit pattern of a binary interchange format stands for a signed quantity `m * 2 ^ q`, for an
infinity or for no number. A finite pattern also fixes the interval of the reals that round to it:
half a step up, half a step down, where the step below a power of two is half as wide.
-/

set_option autoImplicit false

namespace SingleTable.Decimal

/-- The field widths of a binary interchange format. -/
structure BinaryFormat where
  /-- The number of stored bits of the significand. -/
  significandBits : Nat
  /-- The number of bits of the exponent. -/
  exponentBits : Nat

/-- The format with 32 bits. -/
def single : BinaryFormat := ⟨23, 8⟩

/-- The format with 64 bits. -/
def double : BinaryFormat := ⟨52, 11⟩

/-- The magnitude `significand * 2 ^ exponent` with the reach of its rounding interval. -/
structure Magnitude where
  /-- The integer significand. -/
  significand : Nat
  /-- The power of two that scales it. -/
  exponent : Int
  /-- Whether the next smaller magnitude is only half a step away. -/
  narrowBelow : Bool

/-- What a bit pattern stands for. -/
inductive Reading where
  | finite (negative : Bool) (magnitude : Magnitude)
  | infinite (negative : Bool)
  | undefined

/-- Reads the sign, exponent and significand fields of a bit pattern. -/
def BinaryFormat.read (format : BinaryFormat) (bits : Nat) : Reading :=
  let fraction := bits % (1 <<< format.significandBits)
  let field := (bits >>> format.significandBits) % (1 <<< format.exponentBits)
  let negative := bits.testBit (format.significandBits + format.exponentBits)
  let highest := (1 <<< format.exponentBits) - 1
  let offset : Nat := (1 <<< (format.exponentBits - 1)) - 1 + format.significandBits
  if field = highest then
    if fraction = 0 then .infinite negative else .undefined
  else if field = 0 then
    .finite negative ⟨fraction, 1 - (offset : Int), false⟩
  else
    .finite negative
      ⟨(1 <<< format.significandBits) + fraction, (field : Int) - offset,
        fraction == 0 && field != 1⟩

/-- A non-negative fraction. -/
structure Ratio where
  /-- The numerator. -/
  num : Nat
  /-- The denominator, which is not zero in any use. -/
  den : Nat

/-- A fraction times a power of ten. One of the two factors is one, because a negative number of
places is cut off at zero. -/
def Ratio.shift (ratio : Ratio) (places : Int) : Ratio :=
  ⟨ratio.num * Nat.pow 10 places.toNat, ratio.den * Nat.pow 10 (-places).toNat⟩

/-- The magnitude `quarters / 4` steps up from zero, for a magnitude's own step width. -/
def Magnitude.quarter (magnitude : Magnitude) (quarters : Nat) : Ratio :=
  let exponent := magnitude.exponent - 2
  ⟨quarters <<< exponent.toNat, 1 <<< (-exponent).toNat⟩

/-- The magnitude as a fraction. -/
def Magnitude.value (magnitude : Magnitude) : Ratio :=
  magnitude.quarter (4 * magnitude.significand)

/-- The lower end of the rounding interval. -/
def Magnitude.low (magnitude : Magnitude) : Ratio :=
  magnitude.quarter (4 * magnitude.significand - if magnitude.narrowBelow then 1 else 2)

/-- The upper end of the rounding interval. -/
def Magnitude.high (magnitude : Magnitude) : Ratio :=
  magnitude.quarter (4 * magnitude.significand + 2)

/-- Whether `digits * 10 ^ power` rounds to the magnitude. The ends of the interval belong to it
exactly for an even significand. -/
def Magnitude.covers (magnitude : Magnitude) (digits : Nat) (power : Int) : Bool :=
  let point := (⟨digits, 1⟩ : Ratio).shift power
  let low := magnitude.low
  let high := magnitude.high
  let fromLow := point.num * low.den
  let toLow := low.num * point.den
  let fromHigh := point.num * high.den
  let toHigh := high.num * point.den
  if magnitude.significand % 2 = 0 then toLow ≤ fromLow && fromHigh ≤ toHigh
  else toLow < fromLow && fromHigh < toHigh

end SingleTable.Decimal
