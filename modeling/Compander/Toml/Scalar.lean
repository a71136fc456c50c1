import Compander.Decimal.Reader
import Compander.Toml.Value

/-!
# Numbers, truth values, dates and times

The scalars of TOML that are not quoted. Each is one run of letters, digits and
the signs `+ - . : _`, but for a blank that may stand between date and time;
`Scalar.read?` takes the run and decides which scalar it is.

* `integer?` — whole numbers, to the base ten or after `0x`, `0o` and `0b`;
* `float?` — numbers with a point or an exponent, and those that are not finite;
* `isDate`, `isTime`, `isDateTime` — dates and times, of which only the spelling is
  checked, since no preset has any.

Underscores may stand between digits and mean nothing. Zeros in front of a number
are refused, and so are whole numbers that 64 bits do not hold.
-/

namespace Compander.Toml.Scalar

/-! ## Numbers -/

/-- The digits of a text in which each underscore stands between two digits of
some kind; there is at least one. -/
def digits? (isDigit : Char → Bool) : List Char → Option (List Char)
  | [c] => if isDigit c then some [c] else none
  | c :: '_' :: rest => if isDigit c then (digits? isDigit rest).map (c :: ·) else none
  | c :: rest => if isDigit c then (digits? isDigit rest).map (c :: ·) else none
  | [] => none

/-- Decimal digits without a needless zero in front, as a whole number and the part before a
point have them. -/
def wholeDigits? (text : List Char) : Option (List Char) :=
  match digits? Char.isDigit text with
  | some ('0' :: _ :: _) => none
  | other => other

/-- A text without its sign, and whether that was a minus; a plus is the same as no sign. -/
def splitSign : List Char → Bool × List Char
  | '-' :: rest => (true, rest)
  | '+' :: rest => (false, rest)
  | rest => (false, rest)

/-- A whole number, if 64 bits hold it with its sign. -/
def inRange? (n : Int) : Option Value :=
  if -0x8000000000000000 ≤ n ∧ n < 0x8000000000000000 then some (.integer n) else none

/-- The value of a digit to any base up to sixteen, letters of either case included. -/
def digitValue (c : Char) : Nat :=
  if c.isDigit then c.toNat - '0'.toNat else c.toLower.toNat - 'a'.toNat + 10

/-- A whole number written to a base, after the letter that says which; signs are not allowed
there. -/
def based? (base : Nat) (text : List Char) : Option Value := do
  let isDigit (c : Char) : Bool := (c.isDigit || c.isAlpha) && digitValue c < base
  let digits ← digits? isDigit text
  inRange? (digits.foldl (fun n c => base * n + digitValue c) 0 : Nat)

/-- A whole number, to the base ten unless it begins with the mark of another one. -/
def integer? (text : List Char) : Option Value :=
  match text with
  | '0' :: 'x' :: rest => based? 16 rest
  | '0' :: 'o' :: rest => based? 8 rest
  | '0' :: 'b' :: rest => based? 2 rest
  | _ => do
    let (negative, magnitude) := splitSign text
    let n := Decimal.valueOfDigits (← wholeDigits? magnitude)
    inRange? (if negative then -(n : Int) else n)

/-- The exponent of a number after its letter: digits after an optional sign. -/
def exponent? (text : List Char) : Option Int := do
  let (negative, magnitude) := splitSign text
  let n := Decimal.valueOfDigits (← digits? Char.isDigit magnitude)
  return if negative then -(n : Int) else n

/-- Whether a character begins the exponent of a number, in either case. -/
def isExponentMark (c : Char) : Bool :=
  c = 'e' || c = 'E'

/-- A number with a point or an exponent, without a sign. The point has digits
on both sides. -/
def magnitude? (text : List Char) : Option Float := do
  let mantissa := text.takeWhile (!isExponentMark ·)
  let exponent ←
    match text.dropWhile (!isExponentMark ·) with
    | [] => some 0
    | _ :: rest => exponent? rest
  let whole ← wholeDigits? (mantissa.takeWhile (· ≠ '.'))
  match mantissa.dropWhile (· ≠ '.') with
  | [] =>
    if text.any isExponentMark then
      return Decimal.nearestDouble (Decimal.valueOfDigits whole) exponent
    else failure
  | _ :: rest =>
    let fraction ← digits? Char.isDigit rest
    return Decimal.nearestDouble (Decimal.valueOfDigits (whole ++ fraction))
      (exponent - fraction.length)

/-- A number that is not whole, or not finite. A number of digits that is too
large for a double is refused, unless it is negative, which is minus infinity. -/
def float? (text : List Char) : Option Value := do
  let (negative, magnitude) := splitSign text
  let signed (x : Float) : Value := .float (if negative then -x else x)
  if magnitude = ['i', 'n', 'f'] then return signed (1.0 / 0.0)
  else if magnitude = ['n', 'a', 'n'] then return signed (0.0 / 0.0)
  else
    let x ← magnitude? magnitude
    if x.isFinite || negative then return signed x else failure

/-! ## Dates and times -/

/-- The number of two digits, if it lies between two others, these included. -/
def pair? (low high : Nat) (tens ones : Char) : Option Nat :=
  let n := Decimal.valueOfDigits [tens, ones]
  if tens.isDigit && ones.isDigit && low ≤ n && n ≤ high then some n else none

/-- The number of days of a month, which in February depends on the year. -/
def daysOf (year month : Nat) : Nat :=
  if month = 2 then
    if year % 4 = 0 ∧ (year % 100 ≠ 0 ∨ year % 400 = 0) then 29 else 28
  else if month = 4 ∨ month = 6 ∨ month = 9 ∨ month = 11 then 30 else 31

/-- Whether a text is a date of the calendar, with a day that the month has. -/
def isDate : List Char → Bool
  | [a, b, c, d, '-', e, f, '-', g, h] =>
    [a, b, c, d].all Char.isDigit &&
      match pair? 1 12 e f with
      | some month =>
        (pair? 1 (daysOf (Decimal.valueOfDigits [a, b, c, d]) month) g h).isSome
      | none => false
  | _ => false

/-- What follows a time of day, with or without a fraction of a second, at the
beginning of a text. -/
def afterTime? : List Char → Option (List Char)
  | a :: b :: ':' :: c :: d :: ':' :: e :: f :: rest => do
    let _ ← pair? 0 23 a b
    let _ ← pair? 0 59 c d
    let _ ← pair? 0 60 e f
    match rest with
    | '.' :: fraction =>
      if fraction.takeWhile Char.isDigit = [] then failure
      else return fraction.dropWhile Char.isDigit
    | rest => return rest
  | _ => none

/-- Whether a text is the distance of a time zone from the prime meridian. -/
def isZone : List Char → Bool
  | ['Z'] | ['z'] => true
  | [sign, a, b, ':', c, d] =>
    (sign = '+' || sign = '-') && (pair? 0 23 a b).isSome && (pair? 0 59 c d).isSome
  | _ => false

/-- Whether a text is a time of day and nothing else. -/
def isTime (text : List Char) : Bool :=
  afterTime? text = some []

/-- Whether a text is a time of day, with a time zone or without. -/
def isZonedTime (text : List Char) : Bool :=
  match afterTime? text with
  | some rest => rest = [] || isZone rest
  | none => false

/-- Whether a text is a date and a time with a letter between them. -/
def isDateTime (text : List Char) : Bool :=
  isDate (text.take 10) &&
    match text.drop 10 with
    | c :: rest => (c = 'T' || c = 't') && isZonedTime rest
    | [] => false

/-! ## Reading -/

/-- The characters that a scalar is made of, at least one of which makes a run. -/
def isPart (c : Char) : Bool :=
  c.isAlphanum || c = '+' || c = '-' || c = '.' || c = ':' || c = '_'

/-- The scalar that one run of characters is, of the kinds in their order. -/
def ofRun? (run : List Char) : Option Value :=
  if run = ['t', 'r', 'u', 'e'] then some (.boolean true)
  else if run = ['f', 'a', 'l', 's', 'e'] then some (.boolean false)
  else if isDate run || isTime run || isDateTime run then some .moment
  else (float? run).orElse fun _ => integer? run

/-- A scalar at the beginning of a text, and what follows. A date goes on after
one space if a digit follows it. -/
def read? (text : List Char) : Option (Value × List Char) :=
  let run := text.takeWhile isPart
  let rest := text.dropWhile isPart
  match isDate run, rest with
  | true, ' ' :: c :: more =>
    if c.isDigit then
      let time := (c :: more).takeWhile isPart
      if isZonedTime time then some (.moment, (c :: more).dropWhile isPart) else none
    else some (.moment, rest)
  | _, _ => (ofRun? run).map (·, rest)

end Compander.Toml.Scalar
