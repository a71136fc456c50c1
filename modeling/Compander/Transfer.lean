import Compander.Bisection
import Compander.Memory
import Compander.Transfer.Corner

/-!
# The transfer curve

A transfer curve gives the gain of a compander for the level it hears.

* `Transfer.draw` — a curve from points, a knee radius and an output gain;
* `Transfer.gain` — the factor for a level, both linear: what is run on samples;
* `Transfer.gainDecibels`, `Transfer.outputDecibels` — the same in decibels and
  in the wide format: what is shown to a user.

The first piece is the level tail below the lowest point, the last one level and
without end. Below the second piece, the `floor`, the gain is constant, and
neither logarithm nor exponential is taken there, which covers silence too.
-/

namespace Compander

variable {W N : Type}

/-- A drawn transfer curve, with the two numbers computed ahead that every quiet sample
needs. -/
structure Transfer (N : Type) where
  /-- the pieces in order of input level, the tail first -/
  pieces : Array (Piece N)
  /-- the piece after the tail -/
  floor : Piece N
  /-- the linear level where the floor begins -/
  leastInput : N
  /-- the linear gain below that level -/
  floorGain : N
  deriving Repr

namespace Transfer

/-- The pieces of the curve through some knots: a level one for the tail, and from the first
corner on those of the corners and legs. -/
def outline [WideArithmetic W] [Precision W N] (radius : W) : List (Knot W) → List (Piece N)
  | [] => []
  | tail :: rest => Piece.flat tail :: Corner.pieces radius tail rest

/-- The merged knots of a curve, in nepers and with the output gain. The pieces depend on
nothing else but the radius. -/
def knots [WideArithmetic W] (points : List (Point W)) (knee gain : W) : List (Knot W) :=
  (Knot.mergeStraight (Knot.ofPoints knee points)).map (Knot.toNepers gain)

/-- The curve of some pieces, its floor that of the second one. Level and gain of the floor
are made linear in the wide format and then rounded. -/
def ofPieces [WideArithmetic W] [Precision W N] (pieces : List (Piece N)) : Transfer N :=
  let floor := pieces.getD 1 (Piece.flat (⟨0.0, 0.0⟩ : Knot W))
  let linear (x : N) : N := Precision.narrow (Arithmetic.exp (Precision.widen x : W))
  ⟨pieces.toArray, floor, linear floor.x, linear floor.y⟩

/-- The curve through some points, with corners rounded at a radius of `knee`
decibels and a gain in decibels added. Room is asked for twice: before the points are
looked at, for as many knots as there can be, and then for the pieces through those that
are left after merging. -/
def draw [Memory] [WideArithmetic W] [Precision W N] (points : List (Point W)) (knee gain : W) :
    Except SetupError (Transfer N) := do
  if points.isEmpty then throw .noCurve
  if !(Arithmetic.isFinite knee && decide (0.0 < knee)) then throw .kneeNotPositive
  if !Arithmetic.isFinite gain then throw .gainNotFinite
  Storage.knots.reserve (points.length + 2)
  Point.check none points
  Storage.pieces.reserve (2 * (knots points knee gain).length)
  return ofPieces (W := W) (outline (Decibel.toNepers knee) (knots points knee gain))

/-- The index of the piece that covers a level in nepers: the first one after the
tail whose successor begins at or above the level, or the last. -/
def index [Arithmetic N] (t : Transfer N) (level : N) : Nat :=
  1 + Bisection.count (fun i => t.pieces[i + 2]?.any (·.x < level)) (t.pieces.size - 2)

/-- The piece that covers a level in nepers, as far as the search finds it; in a curve that
has been drawn the index always has a piece. -/
def covering [Arithmetic N] (t : Transfer N) (level : N) : Piece N :=
  t.pieces.getD (t.index level) t.floor

/-- The linear gain for a linear level. Below the floor, and at silence, where there is no
logarithm, it is the gain of the floor; everywhere else it is read from the piece that covers
the level. -/
def gain [NarrowArithmetic N] (t : Transfer N) (level : N) : N :=
  if level < t.leastInput ∨ level ≤ 0.0 then t.floorGain
  else
    let nepers := NarrowArithmetic.ln level
    Arithmetic.exp ((t.covering nepers).gain nepers)

/-- The gain in decibels for an input level in decibels. The piece is looked up in the narrow
format, as for a sample, but its gain is evaluated in the wide one. -/
def gainDecibels [WideArithmetic W] [Arithmetic N] [Precision W N] (t : Transfer N)
    (input : W) : W :=
  let nepers := Decibel.toNepers input
  if nepers < Precision.widen t.floor.x then Decibel.ofNepers (Precision.widen t.floor.y)
  else Decibel.ofNepers ((t.covering (Precision.narrow nepers)).gainWide nepers)

/-- The output level in decibels for an input level in decibels: what the transfer function of
the curve looks like to a user. -/
def outputDecibels [WideArithmetic W] [Arithmetic N] [Precision W N] (t : Transfer N)
    (input : W) : W :=
  input + t.gainDecibels input

end Transfer

end Compander
