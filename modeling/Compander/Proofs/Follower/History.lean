import Compander.Follower

/-!
# What a follower has heard

A follower remembers one number, but which one is settled by all the samples it has
heard. Its runs go together like lists:

* `Follower.after_append`, `Follower.volumes_append` — two runs are one;
* `Follower.volumeAt` — the volume once the sample at an index has been heard;
* `Follower.getElem_volumes` — the volumes of a run are these.

So the volume at a sample does not depend on the buffers that brought it, nor on when the samples
before it came. Past the end of the samples `volumeAt` stays at the last volume, which is the one
that the end of a drained stream is shaped with.
-/

namespace Compander.Follower

variable {N : Type} [Arithmetic N]

theorem after_cons (f : Follower N) (sample : N) (rest : List N) :
    f.after (sample :: rest) = (f.hear sample).after rest :=
  rfl

/-- Two runs leave the follower where both at once leave it, as it hears one sample at a
time. -/
theorem after_append (f : Follower N) (samples more : List N) :
    f.after (samples ++ more) = (f.after samples).after more :=
  List.foldl_append

/-- The volumes of two runs are those of both at once, cut where the first run ends. -/
theorem volumes_append (f : Follower N) (samples more : List N) :
    f.volumes (samples ++ more) = f.volumes samples ++ (f.after samples).volumes more := by
  induction samples generalizing f with
  | nil => rfl
  | cons sample rest ih => rw [List.cons_append, volumes, ih, volumes, after_cons, List.cons_append]

/-- The volume once the sample at an index of a run has been heard. -/
def volumeAt (f : Follower N) (samples : List N) (index : Nat) : N :=
  (f.after (samples.take (index + 1))).volume

/-- From the last sample on, the volume is the one at the end of the run. -/
theorem volumeAt_of_le (f : Follower N) {samples : List N} {index : Nat}
    (h : samples.length ≤ index + 1) : f.volumeAt samples index = (f.after samples).volume := by
  rw [volumeAt, List.take_of_length_le h]

/-- The volumes of a run, one by one, are the volumes that the follower has had at its
samples. -/
theorem getElem_volumes (f : Follower N) {samples : List N} {index : Nat}
    (h : index < (f.volumes samples).length) :
    (f.volumes samples)[index] = f.volumeAt samples index := by
  induction samples generalizing f index with
  | nil => exact absurd h (Nat.not_lt_zero index)
  | cons sample rest ih =>
    cases index with
    | zero => rfl
    | succ index => exact ih (f.hear sample) (Nat.lt_of_succ_lt_succ h)

end Compander.Follower
