import Compander.Fault

/-!
# Buffers

A buffer holds a stretch of samples of several channels, one plane for each
channel, with a time stamp if the stretch has a place in time. The planes of a
well-formed buffer are equally long. A buffer is free not to be well formed: who
takes one in checks it first, and says what is wrong with it.

`Buffer.ofFrames` and `Buffer.toFrames` go between planes and interleaved
samples, where the first samples of all channels come first, then the second
ones, and so on.

* `Buffer.isWellFormed` — all planes are as long as the first, which gives the
  buffer its length;
* `Buffer.deal`, `Buffer.separate` — frames dealt out to planes, one frame after
  another, so that a long file is gone through once;
* `Buffer.frameAt`, `Buffer.interleave` — the way back, with a fault where a plane
  is too short for it, or for planes that are known to be long enough.
-/

namespace Compander

variable {α : Type}

/-- Samples of several channels, for a stretch of time that is the same for all of them if the
buffer is well formed. -/
structure Buffer (α : Type) where
  /-- the samples of each channel -/
  planes : List (List α)
  /-- when the stretch begins, in ticks -/
  stamp : Option Int
  deriving Repr

namespace Buffer

/-- The same sample throughout, on so many channels and for so long; with zero for the sample
it is silence. -/
def constant (sample : α) (channels length : Nat) (stamp : Option Int) : Buffer α :=
  ⟨List.replicate channels (List.replicate length sample), stamp⟩

/-- The number of channels, which is that of the planes, those without a sample included. -/
def channels (b : Buffer α) : Nat :=
  b.planes.length

/-- The number of samples of the first channel, by which a buffer is as long as it is; none
without channels. -/
def length (b : Buffer α) : Nat :=
  (b.planes.head?.map List.length).getD 0

/-- The first channel has no sample, so the buffer is over as soon as it begins. -/
def isEmpty (b : Buffer α) : Bool :=
  b.length = 0

/-- All channels are as long as the first. A buffer without channels is well formed. -/
def isWellFormed (b : Buffer α) : Bool :=
  b.planes.all (·.length = b.length)

/-! ## Interleaving -/

/-- The first `frames` samples of some planes, interleaved. A plane that has ended before is
passed over, which for well-formed buffers does not happen. -/
def interleave (planes : List (List α)) (frames : Nat) : List α :=
  let tracks := planes.map List.toArray
  (List.range frames).flatMap fun frame => tracks.filterMap (·[frame]?)

/-- Frames of `channels` samples dealt out, each sample of a frame to its plane. -/
def deal (channels : Nat) : Nat → List α → List (Array α) → List (Array α)
  | 0, _, planes => planes
  | frames + 1, samples, planes =>
    deal channels frames (samples.drop channels)
      (List.zipWith Array.push planes (samples.take channels))

/-- The planes of interleaved samples. Samples that do not fill a frame at the
end are left out. -/
def separate (samples : List α) (channels : Nat) : List (List α) :=
  (deal channels (samples.length / channels) samples (List.replicate channels #[])).map
    Array.toList

/-- A buffer of interleaved samples, with a plane for each channel even if there is no
frame. -/
def ofFrames (samples : List α) (channels : Nat) (stamp : Option Int) : Buffer α :=
  ⟨separate samples channels, stamp⟩

/-- The sample of a track in a frame. A track that has ended is at fault. -/
def sampleAt (track : Array α) (frame : Nat) : Except Fault α :=
  match track[frame]? with
  | some sample => .ok sample
  | none => .error (.outOfBounds track.size frame)

/-- The samples of all tracks in a frame, one track after another; the first track that has
ended is at fault. -/
def frameAt (tracks : List (Array α)) (frame : Nat) : Except Fault (List α) :=
  tracks.mapM (sampleAt · frame)

/-- The samples of a buffer, interleaved, as many frames as the first channel is
long. A shorter channel is at fault where it ends. -/
def toFrames (b : Buffer α) : Except Fault (List α) := do
  let tracks := b.planes.map List.toArray
  let frames ← (List.range b.length).mapM (frameAt tracks)
  return frames.flatten

end Buffer

end Compander
