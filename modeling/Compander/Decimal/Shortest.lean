import Compander.Binary

/-!
# The fewest digits that read back

A decimal reads back as a binary number when it lies in the interval of reals
that round to that number. `Decimal.shortest` finds, among all decimals in the
interval, one with the fewest digits; of those the one nearest to the number;
and of two equally near the one that the tie rule names.

The search goes through the grids of multiples of `10 ^ k` from coarse to fine.
On a grid only the two neighbours of the number matter: if any point of the
grid lies in the interval, so does one of them. All comparisons are between
whole numbers, over a common denominator.
-/

namespace Compander

/-- The number `digits · 10 ^ exponent`, without a sign. The same number may have several such
forms. -/
structure Decimal where
  /-- the digits, as a whole number -/
  digits : Nat
  /-- the power of ten -/
  exponent : Int
  deriving DecidableEq, Repr

namespace Decimal

/-- Which of two equally near decimals is taken. Texts of different kinds differ in this,
though it rarely shows. -/
inductive Tie where
  /-- the one whose last digit is even -/
  | even
  /-- the greater one -/
  | upper
  deriving DecidableEq, Repr

/-- The decimal without trailing zeros among its digits, its exponent that much higher. -/
def trimmed (d : Decimal) : Decimal :=
  if h : 0 < d.digits ∧ d.digits % 10 = 0 then
    trimmed ⟨d.digits / 10, d.exponent + 1⟩
  else d
termination_by d.digits
decreasing_by exact Nat.div_lt_self h.1 (by decide)

/-- The interval of reals that round to `m · 2 ^ e`, in quarters of the last
place: its ends, and whether they belong to it. Below a power of two the
numbers lie twice as dense. -/
def interval (f : Binary.Format) (b : Binary) : Nat × Nat × Bool :=
  let dense := b.mantissa = Nat.pow 2 f.fractionBits ∧ f.leastExponent < b.exponent
  (4 * b.mantissa - if dense then 1 else 2, 4 * b.mantissa + 2, b.mantissa % 2 = 0)

/-- The neighbour of `b` on the grid of multiples of `10 ^ k` that reads back as
`b`, if one of the two does. -/
def onGrid? (f : Binary.Format) (tie : Tie) (b : Binary) (k : Int) : Option Nat :=
  let (low, high, closed) := interval f b
  let (twos, halves) := Binary.ratioOfPower (b.exponent - 2)
  let factor := twos * Nat.pow 10 (-k).toNat
  let unit := halves * Nat.pow 10 k.toNat
  let value := 4 * b.mantissa * factor
  let below := value / unit
  let rest := value % unit
  let inside (n : Nat) : Bool :=
    if closed then low * factor ≤ n * unit && n * unit ≤ high * factor
    else low * factor < n * unit && n * unit < high * factor
  match below ≠ 0 && inside below, inside (below + 1) with
  | false, false => none
  | true, false => some below
  | false, true => some (below + 1)
  | true, true =>
    if 2 * rest < unit then some below
    else if unit < 2 * rest then some (below + 1)
    else
      match tie with
      | .upper => some (below + 1)
      | .even => some (if below % 2 = 0 then below else below + 1)

/-- The search from the grid of `10 ^ k` through the next finer ones, as many of them as there
are tries. -/
def search (f : Binary.Format) (tie : Tie) (b : Binary) : Nat → Int → Decimal
  | 0, k => ⟨0, k⟩
  | tries + 1, k =>
    match onGrid? f tie b k with
    | some digits => ⟨digits, k⟩
    | none => search f tie b tries (k - 1)

/-- The shortest decimal that reads back as the magnitude of `b`. The search
starts at or above the leading digit and ends within twenty grids, since a
double needs at most seventeen digits. -/
def shortest (f : Binary.Format) (tie : Tie) (b : Binary) : Decimal :=
  if b.mantissa = 0 then ⟨0, 0⟩
  else
    let top := b.exponent + Nat.log2 b.mantissa
    trimmed (search f tie b 21 (Int.fdiv (top * 1233) 4096 + 1))

end Decimal

end Compander
