import Compander.Decibel
import Compander.SetupError

/-!
# Points and knots

The user draws a transfer function through points: an output level for an input
level, in decibels. Internally it runs through knots: a gain over an input
level. This module goes from the first to the second:

* `Point.check` — which lists of points are a function;
* `Knot.ofPoints` — the gains at the points, with unity gain at 0 dB put in and
  a flat run below the lowest point;
* `Knot.mergeStraight` — knots on the line through their neighbours go;
* `Knot.toNepers` — the output gain is added and decibels become nepers.

The order matters: merging looks at gains in decibels and without the output
gain, so what is merged does not depend on how loud the result is to be.

Runs from knot to knot have a slope, a direction and a distance. They are what
the rounding of corners works with (`Compander.Transfer.Corner`).
-/

namespace Compander

variable {W : Type}

/-- A point of the transfer function: an input level, and the level that it is to come out
with, both in decibels. -/
structure Point (W : Type) where
  /-- the input level -/
  input : W
  /-- the output level at that input -/
  output : W
  deriving BEq, Repr

namespace Point

/-- Both levels are finite numbers, so that the gain at the point is one as well. -/
def isFinite [Arithmetic W] (p : Point W) : Bool :=
  Arithmetic.isFinite p.input && Arithmetic.isFinite p.output

/-- Refuses points that are not finite, and points left of the one before. Two points at one
level are let through, so a function may jump. -/
def check [Arithmetic W] (previous : Option W) : List (Point W) → Except SetupError Unit
  | [] => .ok ()
  | p :: rest =>
    if !p.isFinite then .error .badPoint
    else if previous.any (p.input < ·) then .error .inputsDecrease
    else check (some p.input) rest

end Point

/-- A point of the gain over the input level. In which unit, decibels or nepers, depends on
how far the drawing has come. -/
structure Knot (W : Type) where
  /-- the input level -/
  x : W
  /-- the gain at that level -/
  y : W
  deriving Repr

namespace Knot

variable [WideArithmetic W]

/-- The knots at some points: the gain is what the output level is above the input level. -/
def atPoints (points : List (Point W)) : List (Knot W) :=
  points.map fun p => ⟨p.input, p.output - p.input⟩

/-- Puts in unity gain at 0 dB, unless there is a knot at that level already. The place is
before the first knot that is not below 0 dB. -/
def withUnity (knots : List (Knot W)) : List (Knot W) :=
  if knots.any (·.x == 0.0) then knots
  else
    knots.takeWhile (fun k => decide (k.x < 0.0)) ++
      ⟨0.0, 0.0⟩ :: knots.dropWhile (fun k => decide (k.x < 0.0))

/-- Puts a knot with the gain of the first one twice the knee below it, so that the first
corner has a level leg before it to be rounded on. -/
def withTail (knee : W) : List (Knot W) → List (Knot W)
  | [] => []
  | first :: rest => ⟨first.x - 2.0 * knee, first.y⟩ :: first :: rest

/-- All knots for some points: those of the points, unity and the tail, from left to right if
the points are. -/
def ofPoints (knee : W) (points : List (Point W)) : List (Knot W) :=
  withTail knee (withUnity (atPoints points))

/-- How far the two cross products of three knots on a line may differ, in dB². -/
def straightness : W := 1e-6

/-- Whether the middle one of three knots lies on the line through the others, as far as can
be told: the cross products of their differences nearly agree. The measure is an area, so
short legs may bend a good deal. -/
def isStraight (p q r : Knot W) : Bool :=
  let first := (q.y - p.y) * (r.x - q.x)
  let second := (r.y - q.y) * (q.x - p.x)
  decide (Arithmetic.abs (first - second) ≤ straightness)

/-- `mergeStraight` after the knots `p` and `q` have been read. A knot that goes
makes its successor a neighbour of `p`, and the same place is tried again. -/
def mergeFrom (p q : Knot W) : List (Knot W) → List (Knot W)
  | [] => [p, q]
  | r :: rest => if isStraight p q r then mergeFrom p r rest else p :: mergeFrom q r rest

/-- The knots without the inner ones that lie on the line through their neighbours. It is one
pass from left to right; the first and the last knot stay. -/
def mergeStraight : List (Knot W) → List (Knot W)
  | p :: q :: rest => mergeFrom p q rest
  | knots => knots

/-- The knot with an output gain added, in nepers. The levels stay where they are, since the
gain goes onto the output only. -/
def toNepers (gain : W) (k : Knot W) : Knot W :=
  ⟨k.x * Decibel.inNepers, (k.y + gain) * Decibel.inNepers⟩

/-- The slope from one knot to another, in nepers for each neper; a run that is vertical, or
goes back, counts as level. -/
def slope (p q : Knot W) : W :=
  let dx := q.x - p.x
  if 0.0 < dx then (q.y - p.y) / dx else 0.0

/-- The direction from one knot to another, in radians, counted from the run that goes
straight to the right. -/
def direction (p q : Knot W) : W :=
  WideArithmetic.angle (q.y - p.y) (q.x - p.x)

/-- The distance from one knot to another, with levels and gains to the same scale. -/
def distance (p q : Knot W) : W :=
  let dx := q.x - p.x
  let dy := q.y - p.y
  WideArithmetic.sqrt (dx * dx + dy * dy)

end Knot

end Compander
