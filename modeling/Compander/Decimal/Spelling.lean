import Compander.Decimal.Shortest
import Compander.Text.Blank

/-!
# The spelling of numbers

A number is written with the fewest digits that read back, or with a fixed count
of places. How the digits are laid out differs from text to text; a `Spelling`
holds those decisions, and the spellings in use are values of it:

* `plain` — option strings, messages and tables: never an exponent;
* `document` — preset documents: as `plain`, but a whole number gets `.0`;
* `json` and `jsonSingle` — JSON text: very large and very small numbers get an
  exponent.

Which digits are the fewest depends on the format, doubles or singles, since fewer
are enough where the numbers lie farther apart. `Decimal.fixed` does not ask how
many are enough; it rounds the exact value to a number of places.
-/

namespace Compander.Decimal

/-- The decimal digits of a whole number, the highest first, and one digit for zero. -/
def digitText (n : Nat) : List Char :=
  Nat.toDigits 10 n

/-- The decisions that a text format makes about numbers: where an exponent begins, and how
ends and words look. -/
structure Spelling where
  /-- which of two equally near decimals is written -/
  tie : Tie
  /-- positions of the decimal point, counted from the first digit, that are
  written without an exponent: above the first and up to the second -/
  positional : Option (Int × Int)
  /-- what follows a whole number -/
  wholeMark : String
  /-- the sign in front of a power of ten that is not negative -/
  powerSign : String
  /-- the text of a number that is not a number -/
  nan : String
  /-- the text of infinity; its negative has a minus sign in front -/
  infinity : String
  /-- the text of minus infinity -/
  negativeInfinity : String

namespace Spelling

/-- Digits with the decimal point in its place, filled up with zeros, and no exponent. -/
def positionalText (s : Spelling) (digits : List Char) (exponent : Int) : List Char :=
  let point : Int := digits.length + exponent
  if 0 ≤ exponent then
    digits ++ List.replicate exponent.toNat '0' ++ s.wholeMark.toList
  else if 0 < point then
    digits.take point.toNat ++ '.' :: digits.drop point.toNat
  else '0' :: '.' :: (List.replicate (-point).toNat '0' ++ digits)

/-- The first digit, a point and the others if there are any, and a power of ten. -/
def scientificText (s : Spelling) (digits : List Char) (exponent : Int) : List Char :=
  let power : Int := digits.length + exponent - 1
  let sign := if power < 0 then ['-'] else s.powerSign.toList
  let lead :=
    match digits with
    | [] => []
    | [d] => [d]
    | d :: rest => d :: '.' :: rest
  lead ++ 'e' :: (sign ++ digitText power.natAbs)

/-- The text of a decimal without a sign, in one of the two layouts. -/
def decimalText (s : Spelling) (d : Decimal) : List Char :=
  let digits := digitText d.digits
  let point : Int := digits.length + d.exponent
  match s.positional with
  | none => s.positionalText digits d.exponent
  | some (above, upTo) =>
    if d.digits = 0 ∨ (above < point ∧ point ≤ upTo) then s.positionalText digits d.exponent
    else s.scientificText digits d.exponent

/-- The text of a finite number of a format, with its sign and its fewest digits. -/
def finiteText (s : Spelling) (f : Binary.Format) (b : Binary) : List Char :=
  let sign := if b.negative then ['-'] else []
  sign ++ s.decimalText (shortest f s.tie b)

/-- The text of a double, which reads back as the double if it is finite. -/
def ofDouble (s : Spelling) (x : Float) : String :=
  match Binary.ofDouble? x with
  | some b => String.ofList (s.finiteText .double b)
  | none => if x.isNaN then s.nan else if x < 0.0 then s.negativeInfinity else s.infinity

/-- The text of a single, with as many digits as tell singles apart. -/
def ofSingle (s : Spelling) (x : Float32) : String :=
  match Binary.ofSingle? x with
  | some b => String.ofList (s.finiteText .single b)
  | none => if x.isNaN then s.nan else if x < 0.0 then s.negativeInfinity else s.infinity

/-- Never an exponent; a whole number is bare, without a point. -/
def plain : Spelling where
  tie := .upper
  positional := none
  wholeMark := ""
  powerSign := ""
  nan := "NaN"
  infinity := "inf"
  negativeInfinity := "-inf"

/-- Never an exponent; a whole number ends in `.0`, since it would read as another kind of
value otherwise. -/
def document : Spelling where
  tie := .upper
  positional := none
  wholeMark := ".0"
  powerSign := ""
  nan := "nan"
  infinity := "inf"
  negativeInfinity := "-inf"

/-- Doubles in JSON, where what is not finite is `null`. A power of ten has its sign
in any case. -/
def json : Spelling where
  tie := .even
  positional := some (-5, 16)
  wholeMark := ".0"
  powerSign := "+"
  nan := "null"
  infinity := "null"
  negativeInfinity := "null"

/-- Singles in JSON, for which an exponent begins at other magnitudes than it does for
doubles. -/
def jsonSingle : Spelling :=
  { json with positional := some (-6, 13) }

end Spelling

/-- A double in the plain spelling, as it stands in option texts and messages. -/
def plain (x : Float) : String :=
  Spelling.plain.ofDouble x

/-- A finite number with a fixed count of places after the point, rounded from
its exact value, a half to the even last digit. -/
def fixedText (places : Nat) (b : Binary) : List Char :=
  let (twos, halves) := Binary.ratioOfPower b.exponent
  let unit := Nat.pow 10 places
  let scaled := Binary.divideToEven (b.mantissa * twos * unit) halves
  let whole := digitText (scaled / unit)
  let fraction := digitText (scaled % unit)
  let sign := if b.negative then ['-'] else []
  sign ++ whole ++ '.' :: (List.replicate (places - fraction.length) '0' ++ fraction)

/-- A double with a fixed count of places after the point, as it stands in tables. -/
def fixed (places : Nat) (x : Float) : String :=
  match Binary.ofDouble? x with
  | some b => String.ofList (fixedText places b)
  | none => Spelling.plain.ofDouble x

end Compander.Decimal
