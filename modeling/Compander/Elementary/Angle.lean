/-!
# Angles

The direction of a plane vector and the sine and cosine of such a direction, on
doubles, from the four operations alone:

* `arctan` — reduction to one of five ranges, then a series in the square;
* `angle` — the direction of a vector, with the conventions for zero and
  infinite coordinates;
* `sine`, `cosine` — for angles between `-π` and `π`, by subtracting whole
  quarter turns first.

The numbers in the series are digits of doubles and not of the functions, so they are
written as they are. A right angle is no double: the cosine of the nearest one is a
small number other than zero, and a vertical leg of a curve comes out with a little
width for that reason.
-/

namespace Compander.Elementary

/-- The nearest double to `π`, which is a little below it. -/
def pi : Float := 3.1415926535897931160e+00

/-- What `pi` lacks to `π`, to the precision of a double. -/
def piRest : Float := 1.2246467991473531772e-16

/-! ## The arctangent -/

/-- The series for the arctangent of a small number, divided by it and
subtracted from one: `(x - arctan x) / x`. -/
def arctanDefect (x : Float) : Float :=
  let z := x * x
  let w := z * z
  let odd := z * (3.33333333333329318027e-01 + w * (1.42857142725034663711e-01
    + w * (9.09088713343650656196e-02 + w * (6.66107313738753120669e-02
    + w * (4.97687799461593236017e-02 + w * 1.62858201153657823623e-02)))))
  let even := w * (-1.99999999998764832476e-01 + w * (-1.11111104054623557880e-01
    + w * (-7.69187620504482999495e-02 + w * (-5.83357013379057348645e-02
    + w * -3.65315727442169155270e-02))))
  odd + even

/-- `base + arctan x`, where the first summand is `high + low`. -/
def arctanFrom (high low x : Float) : Float :=
  high - (x * arctanDefect x - low - x)

/-- The arctangent of a number that is not negative, by reduction to one of five ranges. -/
def arctanMagnitude (x : Float) : Float :=
  if x.isNaN then x
  else if x < Float.ofBits 0x3e40000000000000 then x
  else if x < 0.4375 then x - x * arctanDefect x
  else if x < 0.6875 then
    arctanFrom 4.63647609000806093515e-01 2.26987774529616870924e-17
      ((2.0 * x - 1.0) / (2.0 + x))
  else if x < 1.1875 then
    arctanFrom 7.85398163397448278999e-01 3.06161699786838301793e-17
      ((x - 1.0) / (x + 1.0))
  else if x < 2.4375 then
    arctanFrom 9.82793723247329054082e-01 1.39033110312309984516e-17
      ((x - 1.5) / (1.0 + 1.5 * x))
  else if x < Float.ofBits 0x4410000000000000 then
    arctanFrom 1.57079632679489655800e+00 6.12323399573676603587e-17 (-1.0 / x)
  else 1.57079632679489655800e+00

/-! ## The direction of a vector -/

/-- Whether a number carries a minus sign; also a negative zero does. -/
def signed (x : Float) : Bool :=
  x.toBits >>> 63 == 1

/-- `x` with the sign that the flag asks for, so a zero keeps the side it is on. -/
def withSign (negative : Bool) (x : Float) : Float :=
  if negative then -x else x

/-- The exponent field and the leading bits of the fraction, without the sign. -/
def leading (x : Float) : Nat :=
  ((x.toBits >>> 32) &&& 0x7fffffff).toNat

/-- The direction of the vector `(dx, dy)`, from `-π` to `π`, where a negative zero for `dy`
counts as below. -/
def angle (dy dx : Float) : Float :=
  if dx.isNaN || dy.isNaN then dx + dy
  else if dy == 0.0 then
    if signed dx then withSign (signed dy) pi else dy
  else if dx == 0.0 then withSign (signed dy) (pi / 2.0)
  else if !dx.isFinite && !dy.isFinite then
    withSign (signed dy) (if signed dx then 3.0 * pi / 4.0 else pi / 4.0)
  else if !dx.isFinite then
    withSign (signed dy) (if signed dx then pi else 0.0)
  else if leading dx + 0x4000000 < leading dy || !dy.isFinite then
    withSign (signed dy) (pi / 2.0)
  else
    let acute :=
      if signed dx && leading dy + 0x4000000 < leading dx then 0.0
      else arctanMagnitude (dy / dx).abs
    match signed dx, signed dy with
    | false, negative => withSign negative acute
    | true, false => pi - (acute - piRest)
    | true, true => (acute - piRest) - pi

/-! ## Sine and cosine -/

/-- The sine of `x + rest` for an `x` of magnitude at most `π / 4` and a rest
far below it. -/
def sineCore (x rest : Float) : Float :=
  let z := x * x
  let w := z * z
  let r := 8.33333333332248946124e-03
    + z * (-1.98412698298579493134e-04 + z * 2.75573137070700676789e-06)
    + z * w * (-2.50507602534068634195e-08 + z * 1.58969099521155010221e-10)
  let v := z * x
  x - ((z * (0.5 * rest - v * r) - rest) - v * -1.66666666666666324348e-01)

/-- The sine of an `x` of magnitude at most `π / 4`. -/
def sineSmall (x : Float) : Float :=
  let z := x * x
  let w := z * z
  let r := 8.33333333332248946124e-03
    + z * (-1.98412698298579493134e-04 + z * 2.75573137070700676789e-06)
    + z * w * (-2.50507602534068634195e-08 + z * 1.58969099521155010221e-10)
  let v := z * x
  x + v * (-1.66666666666666324348e-01 + z * r)

/-- The cosine of `x + rest` for an `x` of magnitude at most `π / 4` and a rest
far below it. -/
def cosineCore (x rest : Float) : Float :=
  let z := x * x
  let w := z * z
  let r := z * (4.16666666666666019037e-02
      + z * (-1.38888888888741095749e-03 + z * 2.48015872894767294178e-05))
    + w * w * (-2.75573143513906633035e-07
      + z * (2.08757232129817482790e-09 + z * -1.13596475577881948265e-11))
  let half := 0.5 * z
  let w := 1.0 - half
  w + (((1.0 - w) - half) + (z * r - x * rest))

/-- An angle between `π / 4` and `π` in magnitude, less one or two quarter turns
toward zero: the number of quarter turns, and the difference as a sum of two.
Near a whole number of quarter turns the difference cancels, and further parts
of `π / 2` are subtracted. -/
def lessQuarterTurns (x : Float) : Int × Float × Float :=
  let count : Nat := if leading x ≤ 0x4002d97c then 1 else 2
  let turns : Int := if signed x then -count else count
  let factor := Float.ofInt turns
  let lost (y : Float) : Int := (leading x / 0x100000 : Nat) - (leading y / 0x100000 : Nat)
  let r := x - factor * 1.57079632673412561417e+00
  let w := factor * 6.07710050650619224932e-11
  let y := r - w
  if leading x % 0x100000 ≠ 0x921fb ∨ lost y ≤ 16 then (turns, y, (r - y) - w)
  else
    let t := r
    let w := factor * 6.07710050630396597660e-11
    let r := t - w
    let w := factor * 2.02226624879595063154e-21 - ((t - r) - w)
    let y := r - w
    if lost y ≤ 49 then (turns, y, (r - y) - w)
    else
      let t := r
      let w := factor * 2.02226624871116645580e-21
      let r := t - w
      let w := factor * 8.47842766036889956997e-32 - ((t - r) - w)
      let y := r - w
      (turns, y, (r - y) - w)

/-- The sine of an angle between `-π` and `π`, less whole quarter turns if it is larger than
half of one. -/
def sine (x : Float) : Float :=
  if !x.isFinite then x - x
  else if leading x < 0x3e500000 then x
  else if leading x ≤ 0x3fe921fb then sineSmall x
  else
    let (turns, y, rest) := lessQuarterTurns x
    match turns with
    | 1 => cosineCore y rest
    | -1 => -cosineCore y rest
    | _ => -sineCore y rest

/-- The cosine of an angle between `-π` and `π`, less whole quarter turns if it is larger than
half of one. -/
def cosine (x : Float) : Float :=
  if !x.isFinite then x - x
  else if leading x < 0x3e46a09e then 1.0
  else if leading x ≤ 0x3fe921fb then cosineCore x 0.0
  else
    let (turns, y, rest) := lessQuarterTurns x
    match turns with
    | 1 => -sineCore y rest
    | -1 => sineCore y rest
    | _ => -cosineCore y rest

end Compander.Elementary
