import Compander.SetupError
import Compander.Transfer.Knot

/-!
# Parameters

Everything a user can set on a compander, with the defaults, and the checks that
do not need the curve: `Parameters.check` for the values on their own,
`Parameters.checkFor` for a number of channels.

* `Limits` — the ranges of the numeric options, with the names that their errors
  use; a value that is not a number is in none of them;
* `Parameters.checkTimes`, `Parameters.checkOrder` — the lists, each refused at
  the first element that is wrong;
* `Parameters.timesOf` — which time constants a channel gets.

The checks come in a fixed order, and it is the first failure that is told. They
do not look at everything: whether the points are finite is left to the drawing
of the curve.
-/

namespace Compander

/-- The settings of a compander, each with its default. Two of them are lists with an entry
for each channel, and one is the list of points. -/
structure Parameters where
  /-- attack times in seconds, one for each channel -/
  attacks : List Float := [0.3]
  /-- decay times in seconds, paired with the attacks -/
  decays : List Float := [0.8]
  /-- the points of the transfer function -/
  points : List (Point Float) := [⟨-70.0, -70.0⟩, ⟨-60.0, -20.0⟩]
  /-- the radius at which corners are rounded, in dB -/
  softKnee : Float := 0.01
  /-- the output gain in dB -/
  gain : Float := 0.0
  /-- the volume that followers start with, in dB -/
  volume : Float := 0.0
  /-- the lookahead in seconds -/
  delay : Float := 0.0
  deriving BEq, Repr

instance : Inhabited Parameters := ⟨{}⟩

namespace Limits

/-- Refuses a value outside the limits, and one that is not a number, with an error that has
both the limits and the value. -/
def check (l : Limits) (value : Float) : Except SetupError Unit :=
  if l.low ≤ value ∧ value ≤ l.high then .ok () else .error (.outOfRange l value)

/-- Limits of the knee radius, in dB. With the least of them a corner looks as if it had not
been rounded. -/
def softKnee : Limits := ⟨"soft-knee", 0.01, 900.0⟩

/-- Limits of the output gain, in dB, wide enough for anything that samples can hold. -/
def gain : Limits := ⟨"gain", -900.0, 900.0⟩

/-- Limits of the initial volume, in dB. It is never above full scale. -/
def volume : Limits := ⟨"volume", -900.0, 0.0⟩

/-- Limits of the lookahead, in seconds; none at all is within them, and is the default. -/
def delay : Limits := ⟨"delay", 0.0, 20.0⟩

end Limits

namespace Parameters

/-- A time constant is finite and not negative; zero stands for following at once. -/
def isTime (seconds : Float) : Bool :=
  seconds.isFinite && decide (0.0 ≤ seconds)

/-- Refuses the first time constant of a stage that is none, and says for which stage and with
what value. -/
def checkTimes (stage : Stage) (times : List Float) : Except SetupError Unit :=
  match times.find? fun seconds => !isTime seconds with
  | some seconds => .error (.badTime stage seconds)
  | none => .ok ()

/-- Refuses points left of the one before. Points at one level are in order, and a level that
is not a number is left of none. -/
def checkOrder : List (Point Float) → Except SetupError Unit
  | p :: q :: rest => if q.input < p.input then .error .inputsDecrease else checkOrder (q :: rest)
  | _ => .ok ()

/-- Checks counts, ranges and the order of the points. The time constants come first, then the
ranges in the order of the options, and the points last. -/
def check (p : Parameters) : Except SetupError Unit := do
  if p.attacks.isEmpty then throw .noTimes
  if p.attacks.length ≠ p.decays.length then
    throw (.unpairedTimes p.attacks.length p.decays.length)
  checkTimes .attack p.attacks
  checkTimes .decay p.decays
  Limits.softKnee.check p.softKnee
  Limits.gain.check p.gain
  Limits.volume.check p.volume
  Limits.delay.check p.delay
  if p.points.isEmpty then throw .badPoint
  checkOrder p.points

/-- Checks the parameters, and then that there are not more pairs of time constants than
channels. Fewer are enough. -/
def checkFor (p : Parameters) (channels : Nat) : Except SetupError Unit := do
  p.check
  if channels < p.attacks.length then throw (.tooManyTimes p.attacks.length channels)

/-- The attack and the decay time of a channel. A channel without a pair of its
own follows at once. -/
def timesOf (p : Parameters) (channel : Nat) : Float × Float :=
  (p.attacks.getD channel 0.0, p.decays.getD channel 0.0)

end Parameters

end Compander
