import Compander.Transfer.Knot

/-!
# Pieces

A drawn curve is a sequence of pieces. Each holds from its own input level up to
the level where the next begins, and gives the gain there as a polynomial of
degree two in the distance from its beginning. Levels and gains are in nepers,
kept in the narrow format.

The polynomial is in the distance rather than in the level, so that a piece gives
at its own beginning exactly the gain that is kept for it.

* `Piece.gain` — what is run on samples, in the narrow format throughout;
* `Piece.gainWide` — the same polynomial in the wide format, for levels that are
  shown to a user;
* `Piece.ofKnot`, `Piece.flat` — pieces as they are drawn, with the one rounding
  that each number goes through on its way into the curve.
-/

namespace Compander

variable {W N : Type}

/-- A piece of the curve: from input level `x` on, the gain at `x + d` is
`y + d · (a · d + b)`. -/
structure Piece (N : Type) where
  /-- the input level where the piece begins -/
  x : N
  /-- the gain there -/
  y : N
  /-- the quadratic coefficient; zero on a straight piece -/
  a : N
  /-- the linear coefficient -/
  b : N
  deriving Repr

namespace Piece

/-- The gain at an input level. It is the polynomial at any level, also at one that the piece
does not hold for. -/
def gain [Arithmetic N] (p : Piece N) (level : N) : N :=
  let d := level - p.x
  p.y + d * (p.a * d + p.b)

/-- The gain at an input level, evaluated in the wide format from the numbers that are kept in
the narrow one. -/
def gainWide [Arithmetic W] [Precision W N] (p : Piece N) (level : W) : W :=
  let d := level - Precision.widen p.x
  Precision.widen p.y + d * (Precision.widen p.a * d + Precision.widen p.b)

variable [WideArithmetic W] [Precision W N]

/-- The piece that begins at a knot with some coefficients, all four numbers rounded to the
narrow format. -/
def ofKnot (k : Knot W) (a b : W) : Piece N :=
  ⟨Precision.narrow k.x, Precision.narrow k.y, Precision.narrow a, Precision.narrow b⟩

/-- The level piece that begins at a knot, as there is one below the curve and one above
it. -/
def flat (k : Knot W) : Piece N :=
  Piece.ofKnot k 0.0 0.0

end Piece

end Compander
