import Compander.Arithmetic
import Compander.Binary
import Compander.Elementary.Exponential
import Compander.Elementary.Logarithm
import Compander.Elementary.Angle

/-!
# Floating-point arithmetic

Doubles as the wide and singles as the narrow format. The elementary functions
are those of `Compander.Elementary`, so a run gives the same bits everywhere.

The four operations, square roots and comparisons are those of the formats
themselves, correctly rounded. What is proved about them goes through
`Compander.Binary`, which says what number the bits of a double or a single are.
-/

namespace Compander

instance : WideArithmetic Float where
  decidableLT := inferInstance
  decidableLE := inferInstance
  abs := Float.abs
  isFinite := Float.isFinite
  exp := Elementary.exp
  sqrt := Float.sqrt
  angle := Elementary.angle
  sin := Elementary.sine
  cos := Elementary.cosine
  lnTen := 2.30258509299404568401799145468436421

instance : NarrowArithmetic Float32 where
  decidableLT := inferInstance
  decidableLE := inferInstance
  abs := Float32.abs
  isFinite := Float32.isFinite
  exp := Elementary.expSingle
  ln := Elementary.lnSingle

instance : Precision Float Float32 where
  narrow := Binary.narrow
  widen := Binary.widen

end Compander
