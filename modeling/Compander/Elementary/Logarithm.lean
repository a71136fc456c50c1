/-!
# Logarithms

The natural logarithm of singles and the decimal logarithm of doubles, from the
four operations alone. Both split the argument as `2 ^ k · (1 + f)` with
`1 + f` between `√½` and `√2`, and take the logarithm of `1 + f` from the series
in `s = f / (2 + f)`: `f - f²/2 + s · (f²/2 + p(s²))` for a short polynomial `p`.

The natural one is what every sample goes through on its way to the curve, and so
it is in single precision. The decimal one is for levels that are shown.

As for the exponentials, nothing is left to the machine: the result is the same
everywhere, to the last bit.
-/

namespace Compander.Elementary

/-! ## Singles -/

/-- A positive finite single as `2 ^ k · m` with `m` between `√½` and `√2`, where the smallest
numbers are scaled up first. -/
def splitSingle (x : Float32) : Int × Float32 :=
  let (k, x) : Int × Float32 :=
    if x < Float32.ofBits 0x00800000 then (-25, x * Float32.ofBits 0x4c000000) else (0, x)
  let bits := x.toBits + (0x3f800000 - 0x3f3504f3)
  (k + (bits >>> 23).toNat - 127, Float32.ofBits ((bits &&& 0x007fffff) + 0x3f3504f3))

/-- The natural logarithm on singles; zero has minus infinity, and negative numbers have
none. -/
def lnSingle (x : Float32) : Float32 :=
  if x.isNaN then x
  else if x == 0.0 then -1.0 / 0.0
  else if x < 0.0 then 0.0 / 0.0
  else if !x.isFinite then x
  else if x == 1.0 then 0.0
  else
    let (k, m) := splitSingle x
    let f := m - 1.0
    let s := f / (2.0 + f)
    let z := s * s
    let w := z * z
    let even := w * (0.40000972152 + w * 0.24279078841)
    let odd := z * (0.66666662693 + w * 0.28498786688)
    let r := odd + even
    let half := 0.5 * f * f
    let factor := Float32.ofInt k
    s * (half + r) + factor * 9.0580006145e-06 - half + f + factor * 6.9313812256e-01

/-! ## Doubles -/

/-- A positive finite double as `2 ^ k · m` with `m` between `√½` and `√2`, where the smallest
numbers are scaled up first. -/
def split (x : Float) : Int × Float :=
  let (k, x) : Int × Float :=
    if x < Float.ofBits 0x0010000000000000 then (-54, x * Float.ofBits 0x4350000000000000)
    else (0, x)
  let bits := x.toBits + (0x3ff0000000000000 - 0x3fe6a09e00000000)
  (k + (bits >>> 52).toNat - 1023,
    Float.ofBits ((bits &&& 0x000fffffffffffff) + 0x3fe6a09e00000000))

/-- The number with the lower half of its bits cleared, so that its product with a number of
few bits is exact. -/
def upperHalf (x : Float) : Float :=
  Float.ofBits (x.toBits &&& 0xffffffff00000000)

/-- The decimal logarithm on doubles. The logarithm of `1 + f` is kept as a
short high part and a low part, so that its product with `1 / ln 10` loses
nothing before the last sum. -/
def log10 (x : Float) : Float :=
  if x.isNaN then x
  else if x == 0.0 then -1.0 / 0.0
  else if x < 0.0 then 0.0 / 0.0
  else if !x.isFinite then x
  else if x == 1.0 then 0.0
  else
    let (k, m) := split x
    let f := m - 1.0
    let half := 0.5 * f * f
    let s := f / (2.0 + f)
    let z := s * s
    let w := z * z
    let even := w * (3.999999999940941908e-01 + w * (2.222219843214978396e-01
      + w * 1.531383769920937332e-01))
    let odd := z * (6.666666666666735130e-01 + w * (2.857142874366239149e-01
      + w * (1.818357216161805012e-01 + w * 1.479819860511658591e-01)))
    let r := odd + even
    let high := upperHalf (f - half)
    let low := (f - high) - half + s * (half + r)
    let scaledHigh := high * 4.34294481878168880939e-01
    let factor := Float.ofInt k
    let base := factor * 3.01029995663611771306e-01
    let scaledLow := factor * 3.69423907715893078616e-13
      + (low + high) * 2.50829467116452752298e-11 + low * 4.34294481878168880939e-01
    let sum := base + scaledHigh
    (scaledLow + ((base - sum) + scaledHigh)) + sum

end Compander.Elementary
