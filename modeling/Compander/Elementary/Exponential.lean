/-!
# The exponential function

Exponentials of doubles and singles from the four operations alone: the result
is the same on every machine, to the last bit, and can be computed inside a
proof. Both follow one plan.

* **Reduction.** With `k` the whole number nearest to `x / ln 2`, the rest
  `r = x - k · ln 2` has magnitude at most `ln 2 / 2`. The logarithm of two is
  held as a high part, whose multiples by `k` are exact, and a low part, and `r`
  is kept as the difference `high - low` of the two corresponding products.
* **Core.** With `c = r - r² · p(r²)` for a short polynomial `p`,
  `exp r = 1 + (r · c / (2 - c) - low + high)` to within an ulp.
* **Scaling.** `exp x = 2 ^ k · exp r`, where the last multiplication alone may
  round when the result is among the smallest numbers.
-/

namespace Compander.Elementary

/-! ## Doubles -/

/-- Two to the power of `k`, for `-1022 ≤ k ≤ 1023`, by putting the exponent into its
field. -/
def powerOfTwo (k : Int) : Float :=
  Float.ofBits ((k + 1023).toNat.toUInt64 <<< 52)

/-- `y · 2 ^ k` for `y` near one, rounded once. Below the normal numbers the
first factor leaves `64` binary places of room, so it is exact. -/
def scale (y : Float) (k : Int) : Float :=
  if k < -1022 then y * powerOfTwo (k + 64) * powerOfTwo (-64)
  else if 1023 < k then y * powerOfTwo 1023 * powerOfTwo (k - 1023)
  else y * powerOfTwo k

/-- `exp (high - low)` for a difference of magnitude at most `ln 2 / 2`. -/
def expCore (high low : Float) : Float :=
  let r := high - low
  let s := r * r
  let c := r - s * (1.66666666666666019037e-01 + s * (-2.77777777770155933842e-03
    + s * (6.61375632143793436117e-05 + s * (-1.65339022054652515390e-06
    + s * 4.13813679705723846039e-08))))
  1.0 + (r * c / (2.0 - c) - low + high)

/-- The whole number nearest to `x / ln 2`, a half going away from zero. Below
one and a half logarithms it is `1` or `-1` without a division. -/
def octaves (x : Float) : Int :=
  let magnitude : Nat :=
    if x.abs < Float.ofBits 0x3ff0a2b200000000 then 1
    else (1.44269504088896338700e+00 * x.abs + 0.5).toUInt64.toNat
  if x < 0.0 then -magnitude else magnitude

/-- The exponential function on doubles. Far outside the range of its results nothing is
computed. -/
def exp (x : Float) : Float :=
  if x.isNaN then x
  else if 709.782712893383973096 < x then 1.0 / 0.0
  else if x < -745.13321910194110842 then 0.0
  else if x.abs < Float.ofBits 0x3e30000100000000 then 1.0 + x
  else if x.abs < Float.ofBits 0x3fd62e4300000000 then expCore x 0.0
  else
    let k := octaves x
    let factor := Float.ofInt k
    scale (expCore (x - factor * 6.93147180369123816490e-01)
      (factor * 1.90821492927058770002e-10)) k

/-! ## Singles -/

/-- Two to the power of `k`, for `-126 ≤ k ≤ 127`, by putting the exponent into its field. -/
def powerOfTwoSingle (k : Int) : Float32 :=
  Float32.ofBits ((k + 127).toNat.toUInt32 <<< 23)

/-- `y · 2 ^ k` for `y` near one, rounded once. -/
def scaleSingle (y : Float32) (k : Int) : Float32 :=
  if k < -126 then y * powerOfTwoSingle (k + 64) * powerOfTwoSingle (-64)
  else if 127 < k then y * powerOfTwoSingle 127 * powerOfTwoSingle (k - 127)
  else y * powerOfTwoSingle k

/-- `exp (high - low)` for a difference of magnitude at most `ln 2 / 2`. -/
def expCoreSingle (high low : Float32) : Float32 :=
  let r := high - low
  let s := r * r
  let c := r - s * (1.6666625440e-1 + s * -2.7667332906e-3)
  1.0 + (r * c / (2.0 - c) - low + high)

/-- The whole number nearest to `x / ln 2`, a half going away from zero. -/
def octavesSingle (x : Float32) : Int :=
  let magnitude : Nat :=
    if x.abs ≤ Float32.ofBits 0x3f851592 then 1
    else (1.4426950216e+00 * x.abs + 0.5).toUInt32.toNat
  if x < 0.0 then -magnitude else magnitude

/-- The exponential function on singles, by the same plan as on doubles, with fewer terms. -/
def expSingle (x : Float32) : Float32 :=
  if x.isNaN then x
  else if Float32.ofBits 0x42b17218 ≤ x then 1.0 / 0.0
  else if x ≤ Float32.ofBits 0xc2cff1b5 then 0.0
  else if x.abs ≤ Float32.ofBits 0x39000000 then 1.0 + x
  else if x.abs ≤ Float32.ofBits 0x3eb17218 then expCoreSingle x 0.0
  else
    let k := octavesSingle x
    let factor := Float32.ofInt k
    scaleSingle (expCoreSingle (x - factor * 6.9314575195e-01) (factor * 1.4286067653e-06)) k

end Compander.Elementary
