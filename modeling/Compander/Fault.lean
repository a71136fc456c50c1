/-!
# Faults

A fault is a call that the callee does not answer, because the caller broke a
rule that it could have checked. It is no error of the data: the callee stays as
it is, and the caller is at fault.

Errors of the data are `StreamError`s and `SetupError`s, and a host that gets one
can go on. A host that meets a fault has a mistake in it, so the wording is for
those who write hosts.
-/

namespace Compander

/-- Why a call is not answered, with what the caller would have had to look at before. -/
inductive Fault where
  /-- a buffer has not as many channels as the stream -/
  | channelCount
  /-- the planes of a buffer differ in length -/
  | raggedPlanes
  /-- a buffer came after the held samples began to be drained -/
  | afterDrain
  /-- an element was asked for beyond the end -/
  | outOfBounds (length index : Nat)
  /-- a cursor was committed that no run of a lookahead ends at -/
  | strayCursor
  /-- a channel gave out more or fewer samples than were announced -/
  | emittedCount
  /-- samples at no rate were to be written -/
  | noRate
  /-- a recording without channels was to be written -/
  | noChannels
  deriving DecidableEq, Repr

namespace Fault

/-- The wording of a fault, for the developer of a host rather than for its users. -/
def message : Fault → String
  | channelCount => "block channel count does not match stream geometry"
  | raggedPlanes => "block planes differ in length"
  | afterDrain => "process called after drain started"
  | outOfBounds length index =>
    s!"index out of bounds: the len is {length} but the index is {index}"
  | strayCursor => "cursor outside the delay line"
  | emittedCount => "emitted sample count differs from the announced one"
  | noRate => "attempt to divide by zero"
  | noChannels => "attempt to calculate the remainder with a divisor of zero"

end Fault

end Compander
