import Mathlib.Data.List.Basic
import Compander.Proofs.Buffer.Interleaving
import Compander.Proofs.Parameters.Checks
import Compander.Proofs.Wave.Samples
import Compander.Wave.Container

/-!
# Recordings in a container

What a container stores is not looked into. On this side of it the planes are interleaved and
turned into whole numbers, on the other these are turned into samples and separated, and if the
container gives back what it was given the planes are what they were, but for what whole numbers of
a depth cannot hold of a sample.

* `Wave.restore` — what a sample of a depth is when it is read again;
* `Wave.Container.Keeps` — a container gives back what it was given;
* `Wave.Container.decode_eq_ok_iff` — when there is a recording in a file, and which;
* `Wave.Container.encode_eq_store` — planes are stored frame after frame;
* `Wave.Container.decode_of_samples` — and come back channel by channel, restored.

Nothing here bounds the number of channels, the rate or the length. What a kind of file has no room
for is a matter of that kind, and shows as a container that does not keep such a recording.
-/

namespace Compander.Wave

/-! ## Samples -/

/-- What a sample is when it has been written at a depth and read again. -/
def restore (bits : ℕ) (x : Float32) : Float32 :=
  if bits = 32 then x else level bits (quantize bits x)

variable {s : Shape} {bits : ℕ}

/-- Samples at the depth of singles are what they were. -/
theorem restore_eq_id (hfloat : bits = 32) : restore bits = id :=
  funext fun _ => if_pos hfloat

theorem bits_le_of_ne (hbits : bits ∈ [8, 16, 24, 32]) (hinteger : bits ≠ 32) : bits ≤ 24 := by
  simp only [List.mem_cons, List.not_mem_nil, or_false] at hbits
  omega

/-- Samples are read as they are restored, each for itself and in their order. -/
theorem toSingles_ofSingles (bits : ℕ) (samples : List Float32) :
    (Samples.ofSingles bits samples).toSingles bits = samples.map (restore bits) := by
  rw [Samples.ofSingles]
  split
  · rename_i hfloat
    rw [Samples.toSingles, restore_eq_id hfloat, List.map_id]
  · rename_i hinteger
    have hrounded : restore bits = level bits ∘ quantize bits := funext fun x => if_neg hinteger
    rw [Samples.toSingles, List.map_map, hrounded]

/-- Samples that were restored are written as before, so writing a recording a second time
changes nothing more. -/
theorem ofSingles_restore (hbits : bits ∈ [8, 16, 24, 32]) (samples : List Float32) :
    Samples.ofSingles bits (samples.map (restore bits)) = Samples.ofSingles bits samples := by
  rw [Samples.ofSingles, Samples.ofSingles]
  split
  · rename_i hfloat
    rw [restore_eq_id hfloat, List.map_id]
  · rename_i hinteger
    have hback : quantize bits ∘ restore bits = quantize bits := funext fun x => by
      rw [Function.comp_apply, restore, if_neg hinteger,
        quantize_level (bits_le_of_ne hbits hinteger) (inDepth_quantize bits x)]
    rw [List.map_map, hback]

/-! ## Containers -/

namespace Container

variable {β : Type} {c : Container β} {file : β} {spec : Spec} {samples : Samples}

/-- A container that was given some samples gives them back: it makes a file of them, which says
what they are and yields them again. -/
def Keeps (c : Container β) (spec : Spec) (samples : Samples) : Prop :=
  ∃ file, c.store spec samples = .ok file ∧ c.spec file = .ok spec ∧
    c.samples file spec.encoding = .ok samples

theorem mapError_eq_ok_iff {ε ε' α : Type} {outcome : Except ε α} {f : ε → ε'} {a : α} :
    outcome.mapError f = .ok a ↔ outcome = .ok a := by
  cases outcome <;> simp [Except.mapError]

/-- There is a recording in a file that has channels and samples of a kind that is read. -/
theorem decode_eq_ok_iff {source : Recording} :
    c.decode file = .ok source ↔
      ∃ spec samples, c.spec file = .ok spec ∧ spec.channels ≠ 0 ∧
        ¬(spec.encoding = .float ∧ spec.bits ≠ 32) ∧
        c.samples file spec.encoding = .ok samples ∧
        source = ⟨spec.toShape, Buffer.separate (samples.toSingles spec.bits) spec.channels⟩ := by
  simp only [decode, bind_eq_ok_iff, mapError_eq_ok_iff]
  constructor
  · rintro ⟨spec, hspec, h⟩
    split at h
    · cases h
    rename_i hchannels
    split at h
    · cases h
    rename_i hsingles
    obtain ⟨samples, hsamples, h⟩ := bind_eq_ok_iff.mp h
    cases h
    exact ⟨spec, samples, hspec, hchannels, hsingles, mapError_eq_ok_iff.mp hsamples, rfl⟩
  · rintro ⟨spec, samples, hspec, hchannels, hsingles, hsamples, rfl⟩
    refine ⟨spec, hspec, ?_⟩
    rw [if_neg hchannels, if_neg hsingles, hsamples]
    rfl

/-- The planes of a recording in a file are equally long, whatever the file says. -/
theorem exists_length_of_decode {source : Recording} (h : c.decode file = .ok source) :
    ∃ frames, ∀ plane ∈ source.planes, plane.length = frames := by
  obtain ⟨spec, samples, -, -, -, -, rfl⟩ := decode_eq_ok_iff.mp h
  exact ⟨_, fun plane hplane => Buffer.length_of_mem_separate hplane⟩

variable {planes : List (List Float32)} {frames : ℕ}

/-- Equally long planes go into the container frame after frame, at a depth that is written. -/
theorem encode_eq_store (hpos : 0 < s.channels) (hchannels : planes.length = s.channels)
    (hplanes : ∀ plane ∈ planes, plane.length = frames) (hbits : s.bits ∈ [8, 16, 24, 32]) :
    c.encode planes s =
      c.store (.ofShape s) (.ofSingles s.bits (Buffer.interleave planes frames)) := by
  have hfirst : (planes.head?.map List.length).getD 0 = frames := by
    cases planes with
    | nil => exact absurd hchannels (Nat.ne_of_lt hpos)
    | cons plane planes => exact hplanes plane (List.mem_cons_self ..)
  simp only [encode, hchannels, ne_eq, not_true_eq_false, if_false, hfirst,
    checkLengths_eq_ok_iff.mpr hplanes, hbits]
  rfl

/-- What was stored is separated as it was interleaved, each sample restored by itself, if the
container gives its shape and its samples back. -/
theorem decode_of_samples {file : β} (hpos : 0 < s.channels)
    (hchannels : planes.length = s.channels)
    (hplanes : ∀ plane ∈ planes, plane.length = frames) (hspec : c.spec file = .ok (.ofShape s))
    (hsamples : c.samples file (Spec.ofShape s).encoding =
      .ok (.ofSingles s.bits (Buffer.interleave planes frames))) :
    c.decode file = .ok ⟨s, planes.map (·.map (restore s.bits))⟩ := by
  have hrestored : ∀ plane ∈ planes.map (·.map (restore s.bits)), plane.length = frames := by
    intro plane hplane
    obtain ⟨written, hwritten, rfl⟩ := List.mem_map.mp hplane
    rw [List.length_map, hplanes written hwritten]
  have hback := Buffer.separate_interleave hrestored
    (by rw [List.length_map, hchannels]; exact hpos)
  rw [List.length_map, hchannels, Buffer.interleave_map] at hback
  have hsingles : ¬((Spec.ofShape s).encoding = .float ∧ (Spec.ofShape s).bits ≠ 32) := by
    rintro ⟨hencoding, hother⟩
    have hinteger : (Spec.ofShape s).encoding = .integer := if_neg hother
    rw [hinteger] at hencoding
    cases hencoding
  refine decode_eq_ok_iff.mpr ⟨_, _, hspec, hpos.ne', hsingles, hsamples, ?_⟩
  have hplanes' : Buffer.separate ((Samples.ofSingles s.bits
      (Buffer.interleave planes frames)).toSingles s.bits) s.channels =
        planes.map (·.map (restore s.bits)) := by
    rw [toSingles_ofSingles, hback]
  exact congrArg (Recording.mk s) hplanes'.symm

end Container

end Compander.Wave
