import Compander.Decibel

/-!
# Loudness

How loud some samples are, in decibels: `rms`, the level of the root of their
mean square, and `peak`, the level of the greatest magnitude. Silence reads as
`-200` dB; no samples have no loudness.

Both are for people who want to know what is in a file. Nothing that is done to
samples depends on them.
-/

namespace Compander.Loudness

/-- The sum of the squares, in double precision and in order, so that it is the same wherever
it is computed. -/
def energy (samples : List Float32) : Float :=
  samples.foldl (fun sum x => sum + Binary.widen x * Binary.widen x) 0.0

/-- The level of the root mean square, which is what samples sound like over a while. -/
def rms (samples : List Float32) : Option Float32 :=
  if samples.isEmpty then none
  else
    let root := Float.sqrt (energy samples / Float.ofNat samples.length)
    some (if 0.0 < root then Binary.narrow (20.0 * Elementary.log10 root) else -200.0)

/-- The greatest magnitude, leaving out samples that are not numbers; zero if nothing is left.
-/
def greatest (samples : List Float32) : Float32 :=
  samples.foldl (fun most x => if most < x.abs then x.abs else most) 0.0

/-- The level of the greatest magnitude, which is what a file has to have room for. -/
def peak (samples : List Float32) : Option Float32 :=
  if samples.isEmpty then none else some (Decibel.ofGain (greatest samples))

end Compander.Loudness
