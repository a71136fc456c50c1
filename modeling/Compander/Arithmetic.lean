/-!
# Arithmetic

The number formats a compander computes with, as classes of operations:

* `Arithmetic α` — the four operations, order, equality, absolute value, a test
  for finite values and the exponential;
* `WideArithmetic α` — what drawing a curve needs on top: square roots, angles
  and the natural logarithm of ten;
* `NarrowArithmetic α` — what running a curve on samples needs on top: the
  natural logarithm;
* `Precision W N` — a wide format beside a narrow one, with the rounding from
  the first to the second and the way back.

Curves and followers are written over these classes once. With doubles for the
wide format and singles for the narrow one they run; with one exact format for
both they are the mathematics that the rounded run approximates.
-/

namespace Compander

/-- Numbers with the operations shared by every part of the curve. The order
and equality are those of the format, so a format with a "not a number" may
have elements that are neither below, above nor equal to another. -/
class Arithmetic (α : Type) extends
    Add α, Sub α, Mul α, Div α, Neg α, LT α, LE α, BEq α, OfScientific α where
  /-- the strict order is decidable -/
  decidableLT : DecidableLT α
  /-- the order is decidable -/
  decidableLE : DecidableLE α
  /-- distance from zero -/
  abs : α → α
  /-- neither infinite nor "not a number" -/
  isFinite : α → Bool
  /-- the exponential function -/
  exp : α → α

attribute [reducible, instance] Arithmetic.decidableLT Arithmetic.decidableLE

/-- The format that curves are drawn in. Drawing goes by way of angles, so it needs what leads
from a run between two knots to its direction and back. -/
class WideArithmetic (α : Type) extends Arithmetic α where
  /-- the square root -/
  sqrt : α → α
  /-- `angle dy dx` is the direction of the vector `(dx, dy)`, in radians -/
  angle : α → α → α
  /-- the sine of an angle returned by `angle` -/
  sin : α → α
  /-- the cosine of an angle returned by `angle` -/
  cos : α → α
  /-- the natural logarithm of ten -/
  lnTen : α

/-- The format that samples are processed in. A level becomes nepers by its logarithm before
the curve is read, and a gain becomes a factor by the exponential. -/
class NarrowArithmetic (α : Type) extends Arithmetic α where
  /-- the natural logarithm -/
  ln : α → α

/-- A wide format `W` beside a narrow format `N`. What is drawn in the first is kept in the
second, and what a user is shown is computed in the first again. -/
class Precision (W N : Type) where
  /-- the nearest narrow number -/
  narrow : W → N
  /-- the same number, in the wide format -/
  widen : N → W

end Compander
