import Compander.Buffer
import Compander.SetupError

/-!
# Sinks

A sink takes the buffers that a stream emits. It may refuse one, with an error of
the stream. Two sinks are at hand:

* `Reel` keeps the buffers as they come, with their stamps;
* `Tape` appends their planes to one growing track for each channel, and so ends
  up with whole planes. It refuses what has other channels than its tracks, and
  then stays as it was.

Before a buffer is taken anywhere its planes are compared with its length
(`checkLengths`), and the error names the first one that is off. The errors of a
stream have their wording here too (`StreamError.message`).
-/

namespace Compander

/-- Why a stream does not go on: a buffer that does not belong to it, or a device that cannot
be set up for it. -/
inductive StreamError where
  /-- a buffer has another number of channels than expected -/
  | channelMismatch (expected actual : Nat)
  /-- a channel is longer or shorter than the first -/
  | lengthMismatch (channel expected actual : Nat)
  /-- the device cannot be set up -/
  | setup (error : SetupError)

namespace StreamError

/-- The wording of an error, as the user of a program reads it. -/
def message : StreamError → String
  | channelMismatch expected actual =>
    s!"Channel mismatch: expected {expected} channels, got {actual}"
  | lengthMismatch channel expected actual =>
    s!"Channel length mismatch: channel {channel} has {actual} samples, expected {expected}"
  | setup error => "Compander error: " ++ error.message

end StreamError

/-- Refuses planes of which one has another length than expected, and says which one that is
and how long. -/
def checkLengths (planes : List (List Float32)) (expected : Nat) : Except StreamError Unit :=
  match planes.findIdx? (·.length ≠ expected) with
  | some channel =>
    .error (.lengthMismatch channel expected (planes.getD channel []).length)
  | none => .ok ()

theorem checkLengths_eq_ok_iff {planes : List (List Float32)} {expected : Nat} :
    checkLengths planes expected = .ok () ↔ ∀ plane ∈ planes, plane.length = expected := by
  rw [checkLengths]
  cases hfind : planes.findIdx? (·.length ≠ expected) with
  | none =>
    rw [List.findIdx?_eq_none_iff] at hfind
    simpa using hfind
  | some channel =>
    obtain ⟨hlt, hne, -⟩ := List.findIdx?_eq_some_iff_getElem.mp hfind
    refine ⟨nofun, fun hall => ?_⟩
    exact absurd (hall _ (List.getElem_mem hlt)) (of_decide_eq_true hne)

/-- Planes that are refused are refused with an error that names a channel and the length that
its plane has. -/
theorem exists_checkLengths_eq_error {planes : List (List Float32)} {expected : Nat}
    (h : ¬∀ plane ∈ planes, plane.length = expected) :
    ∃ channel, checkLengths planes expected =
      .error (.lengthMismatch channel expected (planes.getD channel []).length) := by
  rw [← checkLengths_eq_ok_iff, checkLengths] at h
  rw [checkLengths]
  split at h
  · exact ⟨_, rfl⟩
  · exact absurd rfl h

/-- What takes the buffers of a stream, and says for each whether it has been taken. -/
class Sink (σ : Type) where
  /-- hands a buffer to the sink: whether it takes it, and the sink after it -/
  write : σ → Buffer Float32 → Except StreamError Unit × σ

/-- The buffers of a stream, in order and with their stamps. A reel takes every buffer, be it
well formed or not. -/
structure Reel where
  /-- the buffers so far -/
  buffers : Array (Buffer Float32) := #[]

instance : Sink Reel where
  write reel b := (.ok (), ⟨reel.buffers.push b⟩)

/-- The samples of a stream, channel by channel. Where one buffer ends and the next begins is
forgotten. -/
structure Tape where
  /-- the samples of each channel so far; no channels before the first buffer -/
  tracks : List (Array Float32) := []

namespace Tape

/-- A tape with as many empty tracks as there are channels. It takes no other number of
channels from the start. -/
def blank (channels : Nat) : Tape :=
  ⟨List.replicate channels #[]⟩

/-- The tracks as planes, all that has been appended to a tape in the order in which it came.
-/
def planes (t : Tape) : List (List Float32) :=
  t.tracks.map Array.toList

/-- Tracks with a plane appended to each, the first plane to the first track. Tracks without a
plane are dropped, so there are to be as many planes as tracks. -/
def extend (tracks : List (Array Float32)) (planes : List (List Float32)) :
    List (Array Float32) :=
  List.zipWith (fun (track : Array Float32) (plane : List Float32) => track ++ plane) tracks planes

/-- The tape with a buffer appended. A tape without tracks takes over the number of channels
of the first buffer that it gets; from then on, as on a tape that had tracks before, a buffer
with another number of channels is refused and leaves the tape as it is. -/
def append : Tape → Buffer Float32 → Except StreamError Unit × Tape
  | ⟨[]⟩, b => (.ok (), ⟨extend (List.replicate b.channels #[]) b.planes⟩)
  | ⟨tracks⟩, b =>
    if tracks.length = b.channels then (.ok (), ⟨extend tracks b.planes⟩)
    else (.error (.channelMismatch tracks.length b.channels), ⟨tracks⟩)

end Tape

instance : Sink Tape where
  write := Tape.append

end Compander
