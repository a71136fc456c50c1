/-!
# Clocks

Time stamps count ticks of a rational length, from some point in time that the
host of a stream knows and the stream does not. They are signed words of 64 bits,
and what does not fit one wraps around.

* `Tick` — the length of a tick, as a fraction of a second;
* `Tick.word` — a whole number as a signed word;
* `Tick.count` — how many ticks a number of samples takes at a rate;
* `Tick.after` — the stamp a number of samples after another stamp.

A tick and a sample need not be as long as each other. What a buffer takes is
rounded to whole ticks, for each buffer on its own, so over many buffers a clock
may drift away from the samples by half a tick for each of them.
-/

namespace Compander

/-- The length of a tick, `num / den` seconds. The terms need not be coprime, nor positive; a
stream asks for positive ones before it starts. -/
structure Tick where
  /-- the numerator -/
  num : Int
  /-- the denominator -/
  den : Int
  deriving DecidableEq, Repr

namespace Tick

/-- One tick for each sample at a rate, with which a clock counts samples and never has to
round. -/
def perSample (rate : Nat) : Tick :=
  ⟨1, rate⟩

/-- Both terms are positive, so that a tick has a length and the count of ticks a meaning. -/
def isValid (t : Tick) : Bool :=
  0 < t.num && 0 < t.den

/-- A whole number as a signed word of 64 bits: what does not fit wraps around, from
just above the greatest word to the least. -/
def word (n : Int) : Int :=
  Int.bmod n 0x10000000000000000

/-- The number of ticks nearest to the duration of `samples` samples, a half
going up, as a signed word of 64 bits. The quotient is cut toward zero, which
for positive terms rounds down; without a duration there are no ticks. -/
def count (t : Tick) (samples rate : Nat) : Int :=
  let n := samples * t.den
  let d := rate * t.num
  if d = 0 then 0 else word (Int.tdiv (2 * n + d) (2 * d))

/-- The stamp of what comes `samples` samples after something stamped `stamp`. It is a
signed word too, so a clock that runs past the last stamp goes on from the first. -/
def after (t : Tick) (stamp : Int) (samples rate : Nat) : Int :=
  word (stamp + t.count samples rate)

end Tick

end Compander
