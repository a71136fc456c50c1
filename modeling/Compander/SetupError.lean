import Compander.Decimal.Spelling

/-!
# Setup errors

Everything that can be wrong with a compander's parameters or with the layout of
its stream, as causes. `SetupError.message` is the one place that words them.

* `Stage`, `Limits`, `Storage` — what an error is about: a time constant, a numeric
  option with the values that it may have, a buffer that there is no room for;
* `SetupError` — the causes, each with what its wording needs to know;
* `SetupError.reason`, `SetupError.message` — the wording, without and with what
  stands before every error of the parameters.

A buffer that does not fit is nothing that is wrong with the parameters, so its
message does not begin like the others.
-/

namespace Compander

/-- The two time constants of a channel, which are read, checked and worded in the same way.
-/
inductive Stage where
  /-- how fast the level rises -/
  | attack
  /-- how fast the level falls -/
  | decay
  deriving DecidableEq, Repr

namespace Stage

/-- The stage as it is called in messages, in the singular and without a capital letter. -/
def name : Stage → String
  | attack => "attack"
  | decay => "decay"

end Stage

/-- The values that a numeric option may take, both ends included, with the name that its
messages use. -/
structure Limits where
  /-- the option as it is called in messages -/
  option : String
  /-- the least value -/
  low : Float
  /-- the greatest value -/
  high : Float
  deriving Repr

/-- The buffers that are set up before a stream starts, so that nothing has to be asked for
while it runs. -/
inductive Storage where
  /-- the knots of the curve -/
  | knots
  /-- the pieces of the curve -/
  | pieces
  /-- one follower for each channel -/
  | followers
  /-- the table of lookahead rings -/
  | rings
  /-- the samples of the lookahead ring of a channel -/
  | ring (channel : Nat)
  deriving DecidableEq, Repr

/-- The buffer as it is called in messages. The rings of all channels have one name. -/
def Storage.name : Storage → String
  | knots => "curve knots"
  | pieces => "curve segments"
  | followers => "channel envelopes"
  | rings => "delay channel table"
  | ring _ => "delay buffer"

/-- Why a compander cannot be set up. Where several things are wrong, it is the first that the
checks come upon. -/
inductive SetupError where
  /-- the transfer function has no point at all -/
  | noCurve
  /-- the knee is not a positive finite number -/
  | kneeNotPositive
  /-- the output gain is infinite or not a number -/
  | gainNotFinite
  /-- a point is infinite or not a number, or none is given -/
  | badPoint
  /-- a point lies left of the one before it -/
  | inputsDecrease
  /-- there is no pair of time constants -/
  | noTimes
  /-- the counts of attacks and decays differ -/
  | unpairedTimes (attacks decays : Nat)
  /-- a time constant is negative, infinite or not a number -/
  | badTime (stage : Stage) (seconds : Float)
  /-- a numeric option is outside its limits -/
  | outOfRange (limits : Limits) (value : Float)
  /-- there are more pairs of time constants than channels -/
  | tooManyTimes (pairs channels : Nat)
  /-- the stream has no channels -/
  | noChannels
  /-- the sample rate is zero -/
  | noRate
  /-- a term of the tick length is not positive -/
  | badTick
  /-- a lookahead of no samples -/
  | noLookahead
  /-- a buffer does not fit into memory -/
  | tooLarge (storage : Storage) (length : Nat)

namespace SetupError

/-- What is wrong, in the words of a message but without what stands before them. -/
def reason : SetupError → String
  | noCurve => "transfer function needs at least one point"
  | kneeNotPositive => "soft-knee must be a positive number of dB"
  | gainNotFinite => "gain must be finite"
  | badPoint => "invalid and/or missing input/output value"
  | inputsDecrease => "transfer function input values must be increasing"
  | noTimes => "at least one attack/decay pair is required"
  | unpairedTimes attacks decays =>
    s!"number of attacks ({attacks}) differs from number of decays ({decays})"
  | badTime stage seconds =>
    s!"{stage.name} time must be a non-negative number of seconds, got "
      ++ Decimal.plain seconds
  | outOfRange limits value =>
    limits.option ++ " " ++ Decimal.plain value ++ " out of range ["
      ++ Decimal.plain limits.low ++ ", " ++ Decimal.plain limits.high ++ "]"
  | tooManyTimes pairs channels =>
    s!"number of attacks/decays ({pairs}) bigger than number of channels ({channels})"
  | noChannels => "stream has no channels"
  | noRate => "sample rate must be positive"
  | badTick => "time base terms must be positive"
  | noLookahead => "delay line capacity must be at least one sample"
  | tooLarge storage length => s!"failed to allocate {storage.name} ({length} elements)"

/-- The wording of an error: the reason, and before it that the configuration is invalid,
unless it is memory that is short. -/
def message : SetupError → String
  | tooLarge storage length => (tooLarge storage length).reason
  | error => "invalid configuration: " ++ error.reason

end SetupError

end Compander
