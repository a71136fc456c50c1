import Compander.Buffer
import Compander.Wave.Sample

/-!
# Recordings in a container

A container stores samples and what they are, and gives both back. How it does that is
its own matter: here it is a parameter, and what is done on both sides of it is what is
left. Planes are interleaved, and turned into whole numbers unless there are 32 bits for
each sample; what is read is turned back into samples and separated into planes.

* `Wave.Container` — what a container can do;
* `Wave.Container.encode` — planes into a container;
* `Wave.Container.decode` — the recording in a container.

The checks are made in the order in which a caller gets to see them: the planes before
the depth, the depth before the container is asked, and on the way back the channels and
the depth before the first sample is read.
-/

namespace Compander.Wave

/-- Samples in a shape, plane by plane, as a file is read to and written from. -/
structure Recording where
  /-- the shape of the file -/
  shape : Shape
  /-- the samples of each channel -/
  planes : List (List Float32)
  deriving Repr

/-- What stores samples in files of a type and reads them again. A file is written as a
whole. It is read in steps, of which any may fail. -/
structure Container (β : Type) where
  /-- a file of some samples, frame after frame -/
  store : Spec → Samples → Except AudioError β
  /-- what a file says about its samples -/
  spec : β → Except WaveError Spec
  /-- the samples of a file that are whole numbers -/
  integers : β → Except WaveError (List Int)
  /-- the samples of a file that are singles -/
  singles : β → Except WaveError (List Float32)

namespace Container

variable {β : Type}

/-- The samples of a file of an encoding, all of them, frame after frame. -/
def samples (c : Container β) (file : β) : Encoding → Except WaveError Samples
  | .integer => (c.integers file).map .integers
  | .float => (c.singles file).map .singles

/-- A file that holds some planes in a shape. There have to be as many planes as the shape
has channels, all of one length, and the depth has to be one that is written. -/
def encode (c : Container β) (planes : List (List Float32)) (s : Shape) :
    Except AudioError β := do
  if planes.length ≠ s.channels then
    throw (.stream (.channelMismatch s.channels planes.length))
  let frames := (planes.head?.map List.length).getD 0
  (checkLengths planes frames).mapError .stream
  if s.bits ∉ [8, 16, 24, 32] then throw (.outputBits s.bits)
  c.store (Spec.ofShape s) (Samples.ofSingles s.bits (Buffer.interleave planes frames))

/-- The recording in a file. A frame that is not complete at its end is left out. -/
def decode (c : Container β) (file : β) : Except AudioError Recording := do
  let spec ← (c.spec file).mapError .wave
  if spec.channels = 0 then throw (.wave .noChannels)
  if spec.encoding = .float ∧ spec.bits ≠ 32 then throw (.floatBits spec.bits)
  let samples ← (c.samples file spec.encoding).mapError .wave
  return ⟨spec.toShape, Buffer.separate (samples.toSingles spec.bits) spec.channels⟩

end Container

end Compander.Wave
