import Compander.Buffer
import Compander.Clock
import Compander.Follower
import Compander.Lookahead
import Compander.Parameters
import Compander.Transfer

/-!
# The device

A device is a compander set up for one stream: the curve, a follower for each
channel, and a lookahead if the parameters ask for one.

* `Device.setUp` — a device for some parameters and a layout;
* `Device.process` — one buffer in, and what leaves the device;
* `Device.drain`, `Device.finish` — what is still held at the end of the stream;
* `Device.reconfigure` — the same parameters for another layout.

Without a lookahead a buffer comes back with its samples changed and its own
stamp. With one, the samples that leave are those held longest, each under the
gain that its channel's volume has now, and the device stamps what it emits: the
first buffer like the first one that came in, the others by counting on.

A buffer that does not belong to the stream is a fault, and so is any buffer once
held samples have been drained. All the memory that a device needs is asked for
when it is set up, and the only errors that it has are those of setting it up.
-/

namespace Compander

variable {N : Type}

/-- The channels, the sample rate and the time stamps of a stream. They stay the same from its
first buffer to its last. -/
structure Layout where
  /-- the number of channels -/
  channels : Nat
  /-- samples per second -/
  rate : Nat
  /-- the length of a tick -/
  tick : Tick
  deriving DecidableEq, Repr

namespace Layout

/-- The layout with one tick for each sample, so that stamps count samples. -/
def perSample (channels rate : Nat) : Layout :=
  ⟨channels, rate, .perSample rate⟩

/-- Refuses a layout with nothing to process, or with ticks that have no length. -/
def check (l : Layout) : Except SetupError Unit := do
  if l.channels = 0 then throw .noChannels
  if l.rate = 0 then throw .noRate
  if !l.tick.isValid then throw .badTick

end Layout

/-- How samples reach the output, which is settled when a device is set up. -/
inductive Path (N : Type) where
  /-- at once -/
  | direct
  /-- by way of a lookahead -/
  | delayed (line : Lookahead N)
  deriving Repr

/-- A compander set up for a stream of samples in some narrow format. What changes with a
buffer are the followers, the path, the clock and whether it drains. -/
structure Device (N : Type := Float32) where
  /-- the parameters it was set up with -/
  parameters : Parameters
  /-- the layout of the stream -/
  layout : Layout
  /-- the transfer curve -/
  curve : Transfer N
  /-- one follower for each channel -/
  followers : List (Follower N)
  /-- how samples reach the output -/
  path : Path N
  /-- the stamp of the next buffer to be emitted, once a buffer has come in -/
  nextStamp : Option Int
  /-- whether held samples have been drained -/
  draining : Bool
  deriving Repr

namespace Device

/-- The most samples of a channel that one drained buffer holds, so that a long lookahead
comes out in buffers of a usual length. -/
def drainLength : Nat := 2048

section setUp

variable [NarrowArithmetic N] [Precision Float N]

/-- The follower of a channel, with the time constants that the parameters have for it and the
volume that all channels start with. -/
def followerFor (p : Parameters) (rate channel : Nat) : Follower N :=
  let (attack, decay) := p.timesOf channel
  Follower.ofTimes attack decay (Float.ofNat rate) p.volume

/-- The way to the output that the parameters ask for. A lookahead of less than half a sample
is none. -/
def pathFor [Memory] (p : Parameters) (layout : Layout) : Except SetupError (Path N) :=
  let length := Decibel.samplesIn p.delay layout.rate
  if length = 0 then .ok .direct
  else (Lookahead.create 0.0 layout.channels length).map .delayed

/-- A device for some parameters and a layout. Both are checked first, then the curve is
drawn; room is asked for with each thing that needs it, and the first failure ends it. -/
def setUp [Memory] (p : Parameters) (layout : Layout) : Except SetupError (Device N) := do
  layout.check
  p.checkFor layout.channels
  let curve ← Transfer.draw p.points p.softKnee p.gain
  Storage.followers.reserve layout.channels
  let followers := (List.range layout.channels).map (followerFor p layout.rate)
  let path ← pathFor p layout
  return {
    parameters := p, layout, curve, followers, path,
    nextStamp := none, draining := false }

/-- The device for another layout. Its curve, followers and lookahead are those of a new
device, so what it held is lost; the clock waits for a buffer, and the drain has not begun. -/
def reconfigure [Memory] (d : Device N) (layout : Layout) : Except SetupError (Device N) := do
  let fresh ← setUp d.parameters layout
  return { d with
    layout := fresh.layout, curve := fresh.curve, followers := fresh.followers,
    path := fresh.path, nextStamp := none, draining := false }

end setUp

/-- By how many samples the output lags behind the input, from the first sample to the last:
the length of the lookahead. -/
def latency (d : Device N) : Nat :=
  match d.path with
  | .direct => 0
  | .delayed line => line.capacity

/-- How many samples of each channel are held, and would come out if the stream ended now. -/
def pending (d : Device N) : Nat :=
  match d.path with
  | .direct => 0
  | .delayed line => line.filled

/-- Stamps a buffer of some planes with the time of the device's clock, and moves the clock
past it, by as many ticks as its samples take. A clock that no buffer has set begins at zero,
and one that runs past the last stamp goes on from the first. -/
def emit (d : Device N) (planes : List (List N)) (length : Nat) : Buffer N × Device N :=
  let stamp := d.nextStamp.getD 0
  (⟨planes, some stamp⟩,
    { d with nextStamp := some (d.layout.tick.after stamp length d.layout.rate) })

/-- Refuses buffers that do not belong to the stream: with other channels, with planes of
different lengths, or after held samples have been drained. -/
def accept (d : Device N) (b : Buffer N) : Except Fault Unit := do
  if b.channels ≠ d.layout.channels then throw .channelCount
  if !b.isWellFormed then throw .raggedPlanes
  if d.draining then throw .afterDrain

variable [NarrowArithmetic N]

/-- A sample under the gain for a volume, clipped to full scale. -/
def shape (curve : Transfer N) (sample volume : N) : N :=
  Decibel.clip (sample * curve.gain volume)

/-- A plane with each sample under the gain of the volume that it leads to, that is of the
volume after the follower has heard it. -/
def shapePlane (curve : Transfer N) (f : Follower N) (plane : List N) : List N :=
  List.zipWith (shape curve) plane (f.volumes plane)

/-- The samples that left a lookahead, each under the gain for the volume at the time it left.
Where nothing left, the volume goes unused. -/
def shapeEmitted (curve : Transfer N) : List (Option N) → List N → List N
  | some held :: outs, volume :: volumes =>
    shape curve held volume :: shapeEmitted curve outs volumes
  | none :: outs, _ :: volumes => shapeEmitted curve outs volumes
  | _, _ => []

/-- Runs planes through a lookahead, from channel `channel` on, each from the
committed cursor: what leaves each channel, and where that leaves the lookahead and
the last working cursor. -/
def feedPlanes (curve : Transfer N) (emitted : Nat) :
    Nat → List (List N) → List (Follower N) → Lookahead N → Cursor →
      Except Fault (List (List N)) × Lookahead N × Cursor
  | channel, plane :: planes, f :: followers, line, _ =>
    match line.feed channel line.cursor plane with
    | (.error fault, line, last) => (.error fault, line, last)
    | (.ok outs, line, last) =>
      let out := shapeEmitted curve outs (f.volumes plane)
      if out.length ≠ emitted then (.error .emittedCount, line, last)
      else
        let (rest, line, last) :=
          feedPlanes curve emitted (channel + 1) planes followers line last
        (rest.map (out :: ·), line, last)
  | _, _, _, line, last => (.ok [], line, last)

/-- The followers after the planes of a buffer, each having heard the plane of its own
channel. -/
def hearPlanes (followers : List (Follower N)) (planes : List (List N)) : List (Follower N) :=
  List.zipWith Follower.after followers planes

/-- One buffer in, and what leaves the device for it. A buffer that does not belong to
the stream leaves the device as it is. The lookahead is off the device while it
changes, so that its rings change in place. -/
def process (d : Device N) (b : Buffer N) : Except Fault (Option (Buffer N)) × Device N :=
  match d.accept b with
  | .error fault => (.error fault, d)
  | .ok () =>
    match d with
    | ⟨parameters, layout, curve, followers, .direct, nextStamp, draining⟩ =>
      (.ok (some { b with planes := List.zipWith (shapePlane curve) followers b.planes }),
        ⟨parameters, layout, curve, hearPlanes followers b.planes, .direct, nextStamp, draining⟩)
    | ⟨parameters, layout, curve, followers, .delayed line, nextStamp, draining⟩ =>
      let emitted := line.emittedFor b.length
      let (left, line, last) := feedPlanes curve emitted 0 b.planes followers line line.cursor
      match left, line.commit last with
      | .error fault, _ | .ok _, .error fault =>
        (.error fault,
          ⟨parameters, layout, curve, followers, .delayed line, nextStamp, draining⟩)
      | .ok planes, .ok line =>
        let heard : Device N :=
          ⟨parameters, layout, curve, hearPlanes followers b.planes, .delayed line,
            some (nextStamp.getD (b.stamp.getD 0)), draining⟩
        if emitted = 0 then (.ok none, heard)
        else
          let (out, next) := heard.emit planes emitted
          (.ok (some out), next)

/-- The oldest held samples of every channel, up to a count, under the last gain of the
channel. As nothing more is heard, the gain no longer changes. -/
def drainPlanes (curve : Transfer N) (line : Lookahead N) (count : Nat) :
    Nat → List (Follower N) → Except Fault (List (List N))
  | _, [] => .ok []
  | channel, f :: followers => do
    let gain := curve.gain f.volume
    let held ← line.oldest channel count
    let rest ← drainPlanes curve line count (channel + 1) followers
    return held.map (fun sample => Decibel.clip (sample * gain)) :: rest

/-- The next buffer of held samples after the end of the stream; none once the lookahead is
empty. The first one that comes out ends the time in which buffers go in. -/
def drain (d : Device N) : Except Fault (Option (Buffer N) × Device N) :=
  match d.path with
  | .direct => .ok (none, d)
  | .delayed line => do
    let count := min line.filled drainLength
    if count = 0 then return (none, d)
    let planes ← drainPlanes d.curve line count 0 d.followers
    let (out, next) :=
      { d with path := .delayed (line.consume count), draining := true }.emit planes count
    return (some out, next)

/-- Drains at most a number of buffers, and stops earlier if nothing is held any more. -/
def drainUpTo : Nat → Device N → Except Fault (List (Buffer N) × Device N)
  | 0, d => .ok ([], d)
  | count + 1, d => do
    match ← d.drain with
    | (none, d) => return ([], d)
    | (some out, d) =>
      let (rest, d) ← drainUpTo count d
      return (out :: rest, d)

/-- Drains all that is held. Every drained buffer has a sample at least, so as
many buffers as there are held samples are enough. -/
def finish (d : Device N) : Except Fault (List (Buffer N) × Device N) :=
  drainUpTo d.pending d

end Device

end Compander
