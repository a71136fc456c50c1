import Compander.Decibel

/-!
# Level followers

A follower hears the samples of one channel and keeps a smoothed level, its
`volume`. A louder sample pulls the volume up by the attack coefficient, a
quieter one lets it fall by the decay coefficient:

* `Follower.coefficient` — the coefficient for a time constant and a rate;
* `Follower.hear` — one sample;
* `Follower.after`, `Follower.volumes` — a run of samples: the follower at its
  end, and the volume after each sample.

The volume is linear, not in decibels, and what it follows is the magnitude of
the samples. Nothing of a sample is kept but what it has made of the volume, so
a run can be cut anywhere without any change to what is heard.
-/

namespace Compander

variable {W N : Type}

/-- A follower of the level of one channel, with the two coefficients that it does not change
and the volume that it does. -/
structure Follower (N : Type) where
  /-- which part of the way up the volume goes with each sample -/
  attack : N
  /-- which part of the way down the volume goes with each sample -/
  decay : N
  /-- the level now, linear -/
  volume : N
  deriving Repr

namespace Follower

/-- The coefficient for a time constant: after that time the volume has gone all
of the way but for a part of `1 / e`. Times of at most one sample, and times
that are not numbers, make the volume follow at once. -/
def coefficient [WideArithmetic W] [Arithmetic N] [Precision W N] (seconds rate : W) : N :=
  if 1.0 / rate < seconds then
    Precision.narrow (1.0 - Arithmetic.exp (-1.0 / (rate * seconds)))
  else 1.0

/-- A follower with time constants in seconds, at an initial volume in decibels. The times are
turned into coefficients once, for the rate of the stream. -/
def ofTimes [WideArithmetic W] [Arithmetic N] [Precision W N]
    (attack decay rate level : W) : Follower N :=
  ⟨coefficient attack rate, coefficient decay rate, Decibel.amplitude level⟩

variable [Arithmetic N]

/-- The follower after one more sample: the volume goes a part of the way to the magnitude of
the sample, which part depends on the direction. -/
def hear (f : Follower N) (sample : N) : Follower N :=
  let rise := Arithmetic.abs sample - f.volume
  { f with volume := f.volume + rise * (if 0.0 < rise then f.attack else f.decay) }

/-- The follower after a run of samples, one after another, from the first to the last. -/
def after (f : Follower N) (samples : List N) : Follower N :=
  samples.foldl hear f

/-- The volume after each sample of a run, so that the gain for a sample already knows that
sample. -/
def volumes (f : Follower N) : List N → List N
  | [] => []
  | sample :: rest => (f.hear sample).volume :: (f.hear sample).volumes rest

@[simp] theorem length_volumes (f : Follower N) (samples : List N) :
    (f.volumes samples).length = samples.length := by
  induction samples generalizing f with
  | nil => rfl
  | cons sample rest ih => simp [volumes, ih]

end Follower

end Compander
