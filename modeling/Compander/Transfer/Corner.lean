import Compander.Transfer.Piece

/-!
# Rounded corners

Where two straight legs of the curve meet, the corner is cut off at a distance
`radius` along each leg, and a parabola leads from the `entry` on the first leg
to the `exit` on the second, by way of the centroid of entry, corner and exit.
The second leg is used up to its middle only, and the first from the exit of the
corner before, so that neighbouring corners never overlap.

A corner becomes two pieces, the parabola and the leg after it, and `Corner.pieces`
makes those of all knots after the tail. The knots are in the wide format and the
pieces in the narrow one: a coefficient is narrowed when it is stored, after it has
been looked at for being finite. Knots that are too close for a parabola, or one above
the other, get a straight line in its place.
-/

namespace Compander

variable {W N : Type}

/-- A rounded corner: a parabola from `entry` to `exit`. At distance `d` from
the entry it rises by `d · (a · d + b)`. -/
structure Corner (W : Type) where
  /-- where the corner leaves the first leg -/
  entry : Knot W
  /-- where it joins the second -/
  exit : Knot W
  /-- the quadratic coefficient -/
  a : W
  /-- the linear coefficient at the entry -/
  b : W

namespace Corner

variable [WideArithmetic W]

/-- The knot at a distance before `k` on a line of a given direction: where a corner leaves
its first leg. -/
def before (k : Knot W) (distance direction : W) : Knot W :=
  ⟨k.x - distance * WideArithmetic.cos direction,
    k.y - distance * WideArithmetic.sin direction⟩

/-- The knot at a distance after `k` on a line of a given direction: where a corner joins its
second leg. -/
def after (k : Knot W) (distance direction : W) : Knot W :=
  ⟨k.x + distance * WideArithmetic.cos direction,
    k.y + distance * WideArithmetic.sin direction⟩

/-- The lesser of two numbers; the first if the second is not a number. Here the first is the
radius, and the second a length that is not to be gone beyond. -/
def lesser (x y : W) : W :=
  if y < x then y else x

/-- The centroid of three knots, each coordinate the mean of theirs. It lies inside the corner
that the parabola is to round. -/
def centroid (p q r : Knot W) : Knot W :=
  ⟨(p.x + q.x + r.x) / 3.0, (p.y + q.y + r.y) / 3.0⟩

/-- The coefficients of the parabola from `p` by way of `q` to `r`, relative to
`p`. Where the three are too close for finite coefficients it is the straight
line from `p` to `r`, and a level line if that is vertical. -/
def parabola (p q r : Knot W) : W × W :=
  let x₁ := q.x - p.x
  let y₁ := q.y - p.y
  let x₂ := r.x - p.x
  let y₂ := r.y - p.y
  let a := (y₂ / x₂ - y₁ / x₁) / (x₂ - x₁)
  let b := y₁ / x₁ - a * x₁
  if Arithmetic.isFinite a && Arithmetic.isFinite b then (a, b)
  else if 0.0 < x₂ then (0.0, y₂ / x₂)
  else (0.0, 0.0)

/-- The corner at `corner` between the legs from `previous` and to `next`, cut off at the
radius, but at no more than the whole first leg and half of the second. -/
def round (radius : W) (previous corner next : Knot W) : Corner W :=
  let entry := before corner (lesser radius (previous.distance corner))
    (previous.direction corner)
  let exit := after corner (lesser radius (corner.distance next / 2.0))
    (corner.direction next)
  let (a, b) := parabola entry (centroid entry corner exit) exit
  ⟨entry, exit, a, b⟩

/-- The pieces from the first corner on, for the knots after `previous`: for
each inner knot the parabola and the leg that follows, and a level last piece. -/
def pieces [Precision W N] (radius : W) (previous : Knot W) :
    List (Knot W) → List (Piece N)
  | [] => []
  | [last] => [Piece.flat last]
  | corner :: next :: rest =>
    let c := round radius previous corner next
    Piece.ofKnot c.entry c.a c.b :: Piece.ofKnot c.exit 0.0 (corner.slope next) ::
      pieces radius c.exit (next :: rest)

end Corner

end Compander
