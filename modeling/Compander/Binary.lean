/-!
# Binary numbers

Every finite double or single is `± mantissa · 2 ^ exponent` with whole numbers
for mantissa and exponent. This module holds that exact view (`Binary`), the two
formats as records of their field widths (`Binary.Format`), and what is computed
exactly through it:

* `Format.decode` and `Format.encode` — from bits to the exact value and back,
  the latter rounding to the nearest number of the format, ties to even;
* `narrow` and `widen` — between doubles and singles;
* `truncate` and `nearest` — whole parts of a binary number.

Rounding happens in one place only (`divideToEven`), on whole numbers, so there is no
second rounding where a number is narrowed. Infinities and what is not a number have
no exact view; where they can occur they are told apart before it is taken.
-/

namespace Compander

/-- The number `± mantissa · 2 ^ exponent`. Zero keeps its sign, and one number has many such
forms. -/
structure Binary where
  /-- whether the number carries a minus sign -/
  negative : Bool
  /-- the whole factor -/
  mantissa : Nat
  /-- the power of two -/
  exponent : Int
  deriving DecidableEq, Repr

namespace Binary

/-- Two to the power of a whole exponent, as numerator and denominator, one of which is always
one. -/
def ratioOfPower (exponent : Int) : Nat × Nat :=
  (Nat.pow 2 exponent.toNat, Nat.pow 2 (-exponent).toNat)

/-- `num / den` rounded to the nearest whole number, a tie to the even one. -/
def divideToEven (num den : Nat) : Nat :=
  let whole := num / den
  let rest := num % den
  if den < 2 * rest ∨ (den = 2 * rest ∧ whole % 2 = 1) then whole + 1 else whole

/-- `num / den` rounded to the nearest whole number, a tie upward, for a positive
denominator. -/
def divideToUpper (num den : Nat) : Nat :=
  (2 * num + den) / (2 * den)

/-- The whole part of the magnitude, whatever the sign is. -/
def floorMagnitude (b : Binary) : Nat :=
  let (num, den) := ratioOfPower b.exponent
  b.mantissa * num / den

/-- The number cut to a whole number, toward zero, as conversions to whole numbers have it. -/
def truncate (b : Binary) : Int :=
  if b.negative then -(b.floorMagnitude : Int) else b.floorMagnitude

/-- The nearest whole number; of two equally near, the one away from zero. -/
def nearest (b : Binary) : Int :=
  let (num, den) := ratioOfPower b.exponent
  let magnitude := divideToUpper (b.mantissa * num) den
  if b.negative then -(magnitude : Int) else magnitude

/-- The greatest whole number not above the number, which for negative ones is away from
zero. -/
def floor (b : Binary) : Int :=
  let (num, den) := ratioOfPower b.exponent
  let signed : Int := if b.negative then -(b.mantissa * num : Nat) else (b.mantissa * num : Nat)
  Int.fdiv signed den

/-- The number multiplied by a power of two, which is exact: only the exponent changes. -/
def scale (b : Binary) (power : Int) : Binary :=
  { b with exponent := b.exponent + power }

/-! ## Formats -/

/-- The field widths of an interchange format: a sign bit, then
`exponentBits` bits of exponent, then `fractionBits` bits of fraction. -/
structure Format where
  /-- width of the exponent field -/
  exponentBits : Nat
  /-- width of the fraction field -/
  fractionBits : Nat
  deriving DecidableEq, Repr

namespace Format

/-- Doubles, the interchange format of 64 bits. -/
def double : Format := ⟨11, 52⟩

/-- Singles, the interchange format of 32 bits. -/
def single : Format := ⟨8, 23⟩

/-- The exponent of the last place of the smallest numbers, below which a format has
nothing. -/
def leastExponent (f : Format) : Int :=
  2 - (Nat.pow 2 (f.exponentBits - 1) : Nat) - f.fractionBits

/-- The bits of infinity, without a sign: the exponent field full, the fraction empty. -/
def infinityBits (f : Format) : Nat :=
  (Nat.pow 2 f.exponentBits - 1) * Nat.pow 2 f.fractionBits

/-- The sign bit, the highest of them, as a number to add to the others. -/
def signBit (f : Format) : Nat :=
  Nat.pow 2 (f.exponentBits + f.fractionBits)

/-- The finite number that some bits stand for; none for an infinity or a
"not a number". -/
def decode (f : Format) (bits : Nat) : Option Binary :=
  let negative := f.signBit ≤ bits
  let magnitude := bits % f.signBit
  let field := magnitude / Nat.pow 2 f.fractionBits
  let fraction := magnitude % Nat.pow 2 f.fractionBits
  if f.infinityBits ≤ magnitude then none
  else if field = 0 then some ⟨negative, fraction, f.leastExponent⟩
  else some ⟨negative, fraction + Nat.pow 2 f.fractionBits, f.leastExponent + field - 1⟩

/-- The bits of the number of the format nearest to `b`, ties to even; beyond
the greatest number, of infinity.

The last place of the result is `2 ^ place`. A result of the form
`whole · 2 ^ place` has the bits `(place - leastExponent) · 2 ^ fractionBits + whole`,
because the leading bit of `whole` spills into the exponent field exactly when
the number is not among the smallest. -/
def encode (f : Format) (b : Binary) : Nat :=
  let sign := if b.negative then f.signBit else 0
  if b.mantissa = 0 then sign
  else
    let place := max (b.exponent + Nat.log2 b.mantissa - f.fractionBits) f.leastExponent
    let (num, den) := ratioOfPower (b.exponent - place)
    let whole := divideToEven (b.mantissa * num) den
    let magnitude := (place - f.leastExponent).toNat * Nat.pow 2 f.fractionBits + whole
    sign + min magnitude f.infinityBits

end Format

/-! ## Doubles and singles -/

/-- The exact value of a finite double; infinities and what is not a number have none. -/
def ofDouble? (x : Float) : Option Binary :=
  Format.double.decode x.toBits.toNat

/-- The exact value of a finite single; infinities and what is not a number have none. -/
def ofSingle? (x : Float32) : Option Binary :=
  Format.single.decode x.toBits.toNat

/-- The nearest double, ties to even, or an infinity. -/
def toDouble (b : Binary) : Float :=
  Float.ofBits (Format.double.encode b).toUInt64

/-- The nearest single, ties to even, or an infinity. -/
def toSingle (b : Binary) : Float32 :=
  Float32.ofBits (Format.single.encode b).toUInt32

/-- A whole number as a binary number, however large it is. -/
def ofInt (n : Int) : Binary :=
  ⟨n < 0, n.natAbs, 0⟩

/-- The single nearest to a double, ties to even. An infinity stays one, and so does what is
not a number. -/
def narrow (x : Float) : Float32 :=
  match ofDouble? x with
  | some b => b.toSingle
  | none =>
    if x.isNaN then Float32.ofBits 0x7fc00000
    else if x < 0 then Float32.ofBits 0xff800000
    else Float32.ofBits 0x7f800000

/-- The double with the value of a single. Every single has one, so nothing is rounded. -/
def widen (x : Float32) : Float :=
  match ofSingle? x with
  | some b => b.toDouble
  | none =>
    if x.isNaN then Float.ofBits 0x7ff8000000000000
    else if x < 0 then Float.ofBits 0xfff0000000000000
    else Float.ofBits 0x7ff0000000000000

end Binary

end Compander
