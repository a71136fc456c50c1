/-!
# Reading decimal numbers

`Decimal.read?` reads a number text: an optional sign, then digits with at most
one point and at least one digit, then optionally `e` and a whole exponent; or,
in any mix of cases, `inf`, `infinity` or `nan`. Nothing may stand around it. The
value is rounded to the nearest double; what is too large becomes infinite.

The digits of a text are one whole number, and the point only changes the power of
ten that goes with it. So there is one rounding, of an exact quotient of whole
numbers (`Decimal.nearestDouble`), and its result is the nearest double however
long the text is.
-/

namespace Compander.Decimal

/-- The whole number that some digits spell, of which there may be any number; none spell
zero. -/
def valueOfDigits (digits : List Char) : Nat :=
  digits.foldl (fun n c => 10 * n + (c.toNat - '0'.toNat)) 0

/-- The double nearest to `digits · 10 ^ exponent`. Far beyond the range of
doubles on either side the power of ten is not computed. -/
def nearestDouble (digits : Nat) (exponent : Int) : Float :=
  let magnitude : Int := Nat.log2 digits + 1 + exponent * 3
  if digits = 0 then 0.0
  else if 0 < exponent ∧ 2000 < magnitude then 1.0 / 0.0
  else if exponent < 0 ∧ magnitude < -2000 then 0.0
  else Float.ofScientific digits (exponent < 0) exponent.natAbs

/-- A text cut after its leading digits, which may be all of it or none. -/
def spanDigits (text : List Char) : List Char × List Char :=
  (text.takeWhile Char.isDigit, text.dropWhile Char.isDigit)

/-- A text of at least one digit after an optional sign, as a whole number. -/
def wholeNumber? (text : List Char) : Option Int :=
  let (negative, digits) :=
    match text with
    | '-' :: rest => (true, rest)
    | '+' :: rest => (false, rest)
    | rest => (false, rest)
  if digits ≠ [] ∧ digits.all Char.isDigit then
    some (if negative then -(valueOfDigits digits : Int) else valueOfDigits digits)
  else none

/-- The exponent part of a number text, with its letter. A text that has none counts as one
with the exponent zero. -/
def exponentPart? : List Char → Option Int
  | [] => some 0
  | c :: rest => if c = 'e' ∨ c = 'E' then wholeNumber? rest else none

/-- A number text without a sign in front: digits with a point and an exponent, or one of the
words. -/
def magnitude? (text : List Char) : Option Float :=
  let word := text.map Char.toLower
  if word = ['i', 'n', 'f'] ∨ word = ['i', 'n', 'f', 'i', 'n', 'i', 't', 'y'] then
    some (1.0 / 0.0)
  else if word = ['n', 'a', 'n'] then some (0.0 / 0.0)
  else
    let (whole, rest) := spanDigits text
    let (fraction, rest) :=
      match rest with
      | '.' :: rest => spanDigits rest
      | rest => ([], rest)
    if whole = [] ∧ fraction = [] then none
    else
      (exponentPart? rest).map fun exponent =>
        nearestDouble (valueOfDigits (whole ++ fraction)) (exponent - fraction.length)

/-- The double that a number text stands for; a minus sign holds for zero and for infinity
too. -/
def read? (text : List Char) : Option Float :=
  match text with
  | '-' :: rest => (magnitude? rest).map fun x => -x
  | '+' :: rest => magnitude? rest
  | rest => magnitude? rest

end Compander.Decimal
