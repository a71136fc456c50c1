import Mathlib
import Compander.Proofs.Wave.Container
import Compander.Proofs.Wave.Header

/-!
# Recordings written and read

What is read from a container that was written has the shape and the samples that were written,
except that whole numbers of a depth cannot hold every sample. That much is true of every container
that gives back what it was given, whatever the number of channels and the rate. The bytes of a wave
file are such a container as far as the fields of their header reach.

* `Wave.samplesOf_fileOf` — the samples of a wave file come back one after another;
* `Wave.riff_keeps` — a wave file keeps what its header has room for;
* `Wave.Container.decode_encode` — planes in a container that keeps them.

The two halves do not know of each other. What becomes of a sample is settled on this side of the
container, by the depth alone; what becomes of a number of channels or a rate is settled inside it.
Files of this kind have sixteen bits for the bytes of a frame and thirty-two for those of a second
and for the length, and beyond that nothing is promised of them.
-/

namespace Compander.Wave

open Scan

variable {s : Shape}

/-! ## Wave files -/

variable {α : Type} {f : Format}

theorem length_encodeInteger (width : ℕ) (n : ℤ) : (encodeInteger width n).length = width :=
  length_field ..

theorem length_encodeSingle (width : ℕ) (x : Float32) : (encodeSingle width x).length = width :=
  length_field ..

/-- Samples take as many bytes each, so the length of the data is known from their number. -/
theorem length_encode_ofSingles (width bits : ℕ) (samples : List Float32) :
    ((Samples.ofSingles bits samples).encode width).length = width * samples.length := by
  rw [Samples.ofSingles]
  split
  · rw [Samples.encode, List.length_flatMap,
      List.map_congr_left fun x _ => length_encodeSingle width x, List.map_const',
      List.sum_replicate_nat, Nat.mul_comm]
  · rw [Samples.encode, List.length_flatMap,
      List.map_congr_left fun n _ => length_encodeInteger width n, List.map_const',
      List.sum_replicate_nat, List.length_map, Nat.mul_comm]

/-- A single comes back from its bytes, as its bits and so as itself. -/
theorem ofBits_encodeSingle (x : Float32) :
    Float32.ofBits (valueOf (encodeSingle 4 x)).toUInt32 = x := by
  rw [encodeSingle, valueOf_field_of_lt x.toBits.toNat_lt, Nat.toUInt32, UInt32.ofNat_toNat,
    Single.ofBits_toBits]

/-- Samples of one width are read one after another, behind those that have been read
before. -/
theorem reads_scanSamples (read : List UInt8 → α) {write : α → List UInt8} {width : ℕ}
    (hwidth : ∀ x, (write x).length = width) (samples done : List α) (tail : List UInt8) :
    Reads (scanSamples read width samples.length done) (samples.flatMap write ++ tail)
      (done.reverse ++ samples.map fun x => read (write x)) tail := by
  induction samples generalizing done with
  | nil =>
    rw [List.map_nil, List.append_nil, List.flatMap_nil, List.nil_append]
    exact reads_pure_iff.mpr ⟨rfl, rfl⟩
  | cons x samples ih =>
    have hrest := ih (read (write x) :: done)
    rw [List.reverse_cons, List.append_assoc, List.singleton_append] at hrest
    rw [List.length_cons, scanSamples, List.flatMap_cons, List.append_assoc,
      reads_take_bind_iff (hwidth x)]
    exact hrest

/-- Samples come back from the bytes of a file if its header is read and each of them comes back
from its own bytes. -/
theorem samplesOf_fileOf {reader : ℕ → ℕ → Except WaveError (List UInt8 → α)}
    {read : List UInt8 → α} {write : α → List UInt8} {samples : List α}
    (hheader : Reads scanHeader (fileOf f (samples.flatMap write)) ⟨f, samples.length⟩
      (samples.flatMap write))
    (hreader : reader f.width f.bits = .ok read) (hwidth : ∀ x, (write x).length = f.width)
    (hback : ∀ x ∈ samples, read (write x) = x) :
    samplesOf reader (fileOf f (samples.flatMap write)) = .ok samples := by
  have hdata : Reads (scanData reader ⟨f, samples.length⟩) (samples.flatMap write) samples [] := by
    have hall := reads_scanSamples read hwidth samples [] []
    rw [List.map_congr_left hback, List.map_id', List.append_nil, List.reverse_nil,
      List.nil_append] at hall
    have hlift : (liftM (reader f.width f.bits) : Scan (List UInt8 → α)) = pure read :=
      congrArg liftM hreader
    rw [scanData]
    split
    · rename_i hnone
      obtain rfl := List.eq_nil_of_length_eq_zero hnone
      exact reads_pure_iff.mpr ⟨rfl, rfl⟩
    · simp only [hlift, pure_bind]
      exact hall
  have hfile := reads_bind_iff.mpr ⟨_, _, hheader, hdata⟩
  rw [samplesOf, bind_eq_ok_iff]
  exact ⟨_, hfile, rfl⟩

/-- Samples are written if they come at a rate and in channels, which the writer asks for. -/
theorem store_eq {spec : Spec} (hrate : spec.rate ≠ 0) (hchannels : spec.channels ≠ 0)
    (samples : Samples) :
    store spec samples =
      .ok (fileOf (Format.ofSpec spec) (samples.encode (Format.ofSpec spec).width)) := by
  rw [store, if_neg hrate, if_neg hchannels]
  rfl

theorem spec_of_reads {bytes rest : List UInt8} {h : Header}
    (hheader : Reads scanHeader bytes h rest) :
    riff.spec bytes = .ok h.format.toSpec := by
  rw [Reads] at hheader
  simp only [riff, hheader]
  rfl

/-- Singles come back from a file whose header is read, bit by bit. -/
theorem samples_of_singles (hwidth : f.width = 4) (hbits : f.bits = 32) {list : List Float32}
    (hheader : Reads scanHeader (fileOf f ((Samples.singles list).encode f.width))
      ⟨f, list.length⟩ ((Samples.singles list).encode f.width)) :
    riff.samples (fileOf f ((Samples.singles list).encode f.width)) .float =
      .ok (.singles list) := by
  have hreader : singleReader f.width f.bits = .ok _ := if_pos ⟨hwidth, hbits⟩
  have hback : ∀ x ∈ list, Float32.ofBits (valueOf (encodeSingle f.width x)).toUInt32 = x :=
    fun x _ => hwidth ▸ ofBits_encodeSingle x
  exact congrArg (Except.map Samples.singles)
    (samplesOf_fileOf hheader hreader (length_encodeSingle f.width) hback)

/-- So do whole numbers of a depth that has whole numbers, if they are within its range. -/
theorem samples_of_integers (hwidth : f.width = (f.bits + 7) / 8) (hbits : f.bits ∈ [8, 16, 24])
    {list : List ℤ} (hdepth : ∀ n ∈ list, InDepth f.bits n)
    (hheader : Reads scanHeader (fileOf f ((Samples.integers list).encode f.width))
      ⟨f, list.length⟩ ((Samples.integers list).encode f.width)) :
    riff.samples (fileOf f ((Samples.integers list).encode f.width)) .integer =
      .ok (.integers list) := by
  obtain ⟨read, hreader, hback⟩ := exists_integerReader hbits
  rw [← hwidth] at hreader hback
  exact congrArg (Except.map Samples.integers) (samplesOf_fileOf hheader hreader
    (length_encodeInteger f.width) fun n hn => hback n (hdepth n hn))

/-- **Wave files.** A wave file keeps the samples that its header has room for, be they whole
numbers or singles. -/
theorem riff_keeps (hbits : s.bits ∈ [8, 16, 24, 32]) (hpos : 0 < s.channels) {frames : ℕ}
    (hfits : (Format.ofSpec (.ofShape s)).Fits frames) {samples : List Float32}
    (hsamples : samples.length = frames * s.channels) :
    riff.Keeps (.ofShape s) (.ofSingles s.bits samples) := by
  have hlength := length_encode_ofSingles (Format.ofSpec (.ofShape s)).width s.bits samples
  rw [hsamples] at hlength
  have hheader : Reads scanHeader (fileOf (Format.ofSpec (.ofShape s)) _)
      ⟨Format.ofSpec (.ofShape s), frames * s.channels⟩ _ :=
    (Format.reads_header_iff ⟨s, hbits, rfl⟩ hpos hfits.rate_pos hlength).mpr hfits
  rw [← hsamples] at hheader
  refine ⟨_, store_eq hfits.rate_pos.ne' hpos.ne' _, spec_of_reads hheader, ?_⟩
  by_cases hfloat : s.bits = 32
  · have hencoding : (Spec.ofShape s).encoding = .float := if_pos hfloat
    have hwidth : (Format.ofSpec (.ofShape s)).width = 4 := by
      simp only [Format.ofSpec, Spec.ofShape, hfloat]
    rw [Samples.ofSingles, if_pos hfloat] at hheader ⊢
    rw [hencoding]
    exact samples_of_singles hwidth hfloat hheader
  · have hencoding : (Spec.ofShape s).encoding = .integer := if_neg hfloat
    have hinteger : s.bits ∈ [8, 16, 24] := by
      simp only [List.mem_cons, List.not_mem_nil, or_false] at hbits ⊢
      omega
    rw [Samples.ofSingles, if_neg hfloat] at hheader ⊢
    rw [← List.length_map (f := quantize s.bits)] at hheader
    rw [hencoding]
    refine samples_of_integers rfl hinteger (fun n hn => ?_) hheader
    obtain ⟨x, -, rfl⟩ := List.mem_map.mp hn
    exact inDepth_quantize s.bits x

/-! ## Any container -/

namespace Container

variable {β : Type} {c : Container β} {planes : List (List Float32)} {frames : ℕ}

/-- **Written and read.** A container that gives back what it was given keeps equally long planes of
finite samples: they come back in the same shape, channel by channel and frame by frame. With 32
bits the samples are the same; with fewer, each is rounded to a whole number of steps, and what is
out of range becomes the nearest end of it. Written again, the planes give the same file, and all
whole numbers of the depth come back from the samples that they stand for. -/
theorem decode_encode (hpos : 0 < s.channels) (hchannels : planes.length = s.channels)
    (hplanes : ∀ plane ∈ planes, plane.length = frames)
    (hfinite : ∀ plane ∈ planes, ∀ x ∈ plane, x.isFinite = true) (hbits : s.bits ∈ [8, 16, 24, 32])
    (hkeeps : c.Keeps (.ofShape s) (.ofSingles s.bits (Buffer.interleave planes frames))) :
    ∃ file planes', c.encode planes s = .ok file ∧ c.decode file = .ok ⟨s, planes'⟩ ∧
      planes'.length = s.channels ∧ (∀ plane ∈ planes', plane.length = frames) ∧
      (s.bits = 32 → planes' = planes) ∧
      (s.bits ≠ 32 → List.Forall₂ (List.Forall₂ (Rounded s.bits)) planes planes' ∧
        ∀ n, InDepth s.bits n → quantize s.bits (level s.bits n) = n) ∧
      c.encode planes' s = .ok file := by
  obtain ⟨file, hstore, hspec, hsamples⟩ := hkeeps
  have hencode := encode_eq_store (c := c) hpos hchannels hplanes hbits
  have hdecode := decode_of_samples hpos hchannels hplanes hspec hsamples
  have hchannels' : (planes.map (·.map (restore s.bits))).length = s.channels := by
    rw [List.length_map, hchannels]
  have hplanes' : ∀ plane ∈ planes.map (·.map (restore s.bits)), plane.length = frames := by
    intro plane hplane
    obtain ⟨written, hwritten, rfl⟩ := List.mem_map.mp hplane
    rw [List.length_map, hplanes written hwritten]
  refine ⟨file, planes.map (·.map (restore s.bits)), hencode.trans hstore, hdecode, hchannels',
    hplanes', fun hfloat => ?_, fun hinteger => ⟨?_, fun n hn => ?_⟩, ?_⟩
  · rw [restore_eq_id hfloat, List.map_id_fun]
    exact List.map_id planes
  · rw [List.forall₂_map_right_iff, List.forall₂_same]
    intro plane hplane
    rw [List.forall₂_map_right_iff, List.forall₂_same]
    intro x hx
    rw [restore, if_neg hinteger]
    exact rounded_level_quantize (bits_le_of_ne hbits hinteger) (hfinite plane hplane x hx)
  · exact quantize_level (bits_le_of_ne hbits hinteger) hn
  · rw [encode_eq_store hpos hchannels' hplanes' hbits, Buffer.interleave_map,
      ofSingles_restore hbits]
    exact hstore

/-- Two planes of two samples, one of them out of range, through the bytes of a wave file. -/
theorem decode_encode_of_two_channels :
    ∃ bytes planes', riff.encode [[0.5, -1.5], [1.0, 0.25]] ⟨2, 44100, 16⟩ = .ok bytes ∧
      riff.decode bytes = .ok ⟨⟨2, 44100, 16⟩, planes'⟩ ∧ planes'.length = 2 ∧
      (∀ plane ∈ planes', plane.length = 2) ∧
      ((16 : ℕ) = 32 → planes' = [[0.5, -1.5], [1.0, 0.25]]) ∧
      ((16 : ℕ) ≠ 32 →
        List.Forall₂ (List.Forall₂ (Rounded 16)) [[0.5, -1.5], [1.0, 0.25]] planes' ∧
          ∀ n, InDepth 16 n → quantize 16 (level 16 n) = n) ∧
      riff.encode planes' ⟨2, 44100, 16⟩ = .ok bytes :=
  have hfits : (Format.ofSpec (.ofShape ⟨2, 44100, 16⟩)).Fits 2 :=
    ⟨by decide, by decide, by decide, by decide⟩
  decode_encode (by decide) rfl (by decide +kernel) (by decide +kernel) (by decide)
    (riff_keeps (by decide) (by decide) hfits (by decide +kernel))

end Container

end Compander.Wave
