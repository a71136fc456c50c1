import Compander.Floating

/-!
# Decibels

Levels in decibels, in nepers and as amplitudes. Twenty decibels are a factor of
ten, so a level of `L` dB is `L · ln 10 / 20` nepers, and `exp` of a level in
nepers is the amplitude.

Users and parameters speak of decibels. Curves are drawn and read in nepers,
because there a gain is one addition and the way to the factor one exponential.

* `Decibel.toNepers`, `Decibel.ofNepers`, `Decibel.amplitude` — the three scales;
* `Decibel.toGain`, `Decibel.ofGain` — the same in single precision, for callers
  that have a level and want a factor;
* `Decibel.clip` — what keeps a processed sample within the range of a file;
* `Decibel.samplesIn` — durations, which become lengths in the same rounded way.
-/

namespace Compander.Decibel

variable {W N : Type}

/-- How many nepers a decibel is: a twentieth of the natural logarithm of ten, rounded as the
wide format rounds it. -/
def inNepers [WideArithmetic W] : W :=
  WideArithmetic.lnTen / 20.0

/-- A level in decibels, in nepers. One multiplication, so the order of levels stays what it
was. -/
def toNepers [WideArithmetic W] (level : W) : W :=
  level * inNepers

/-- A level in nepers, in decibels, by the division that undoes the multiplication of
`toNepers` up to rounding. -/
def ofNepers [WideArithmetic W] (level : W) : W :=
  level / inNepers

/-- The amplitude of a level in decibels. The exponential is taken in the wide format, and its
result is rounded to the narrow one, so there is one rounding at the end. -/
def amplitude [WideArithmetic W] [Precision W N] (level : W) : N :=
  Precision.narrow (Arithmetic.exp (level * inNepers))

/-- A number held within `[-1, 1]`; one that is not a number is neither above nor below the
limits and stays as it is. -/
def clip [Arithmetic N] (x : N) : N :=
  if x < -1.0 then -1.0 else if 1.0 < x then 1.0 else x

/-- The gain factor for a level in decibels, in single precision throughout, for callers that
have no wide format at hand. -/
def toGain (level : Float32) : Float32 :=
  Elementary.expSingle (level * (2.30258509299404568401799145468436421 / 20.0))

/-- The level in decibels of a gain factor, in single precision. Factors below
`1e-10`, zero and negative ones included, count as `1e-10`. -/
def ofGain (gain : Float32) : Float32 :=
  let least : Float32 := 1e-10
  Elementary.lnSingle (if least < gain then gain else least)
    * (20.0 / 2.30258509299404568401799145468436421)

/-- The number of samples nearest to a duration in seconds, at most `2 ^ 64 - 1`.
Durations that are not finite and positive have none. -/
def samplesIn (seconds : Float) (rate : Nat) : Nat :=
  match Binary.ofDouble? (seconds * Float.ofNat rate) with
  | some b => min b.nearest.toNat 0xffffffffffffffff
  | none => 0

end Compander.Decibel
