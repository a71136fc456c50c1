import Mathlib
import Compander.Proofs.Parameters.Checks
import Compander.Proofs.Wave.Samples
import Compander.Wave.Reader

/-!
# The header of a wave file

Before its samples a file says what they are. Whether that can be read again depends on the fields
of the header, each of which has so many bytes and no more: what does not fit a field is cut off at
the top. The steps of reading are taken one by one, each from the front of the bytes that the step
of writing put there, so that the fields come back in the order in which they were written.

* `Wave.Scan.Reads` — a step reads something from the front of some bytes;
* `Wave.Format.wrapped` — the format that the fields of a header give back;
* `Wave.Format.reads_file_iff` — a file is read if the fields of its header agree;
* `Wave.Format.Fits` — the numbers of a header fit their fields;
* `Wave.Format.reads_header_iff` — exactly then the header of a file says what was written.

Some fields say the same in two ways, such as the bytes of a frame and those of a second. A number
that was cut off shows when they no longer agree, unless the other field was cut off to match; the
equivalence says that it then is not the number that was written.
-/

namespace Compander.Wave

namespace Scan

variable {α β : Type} {bytes head tail rest : List UInt8}

/-- A step reads something from the front of some bytes, and leaves the others. -/
def Reads (scan : Scan α) (bytes : List UInt8) (a : α) (rest : List UInt8) : Prop :=
  scan.run bytes = .ok (a, rest)

theorem reads_pure_iff {a b : α} : Reads (pure a) bytes b rest ↔ b = a ∧ rest = bytes := by
  rw [Reads, StateT.run_pure]
  change Except.ok (a, bytes) = .ok (b, rest) ↔ _
  rw [Except.ok.injEq, Prod.mk.injEq, eq_comm (a := a), eq_comm (a := bytes)]

/-- Two steps read if the first does, and then the second reads from what the first has
left. -/
theorem reads_bind_iff {scan : Scan α} {next : α → Scan β} {b : β} :
    Reads (scan >>= next) bytes b rest ↔
      ∃ a mid, Reads scan bytes a mid ∧ Reads (next a) mid b rest := by
  rw [Reads, StateT.run_bind, bind_eq_ok_iff]
  exact ⟨fun ⟨(a, mid), h, h'⟩ => ⟨a, mid, h, h'⟩, fun ⟨a, mid, h, h'⟩ => ⟨(a, mid), h, h'⟩⟩

theorem reads_take_iff {count : ℕ} {taken : List UInt8} (h : head.length = count) :
    Reads (take count) (head ++ tail) taken rest ↔ taken = head ∧ rest = tail := by
  subst h
  have htake : (take head.length).run (head ++ tail) = .ok (head, tail) := by
    simp [take, StateT.run]
  rw [Reads, htake, Except.ok.injEq, Prod.mk.injEq, eq_comm, eq_comm (a := tail)]

/-- What comes first is taken, as many bytes as are asked for, and the next step has them. -/
theorem reads_take_bind_iff {count : ℕ} {next : List UInt8 → Scan β} {b : β}
    (h : head.length = count) :
    Reads (take count >>= next) (head ++ tail) b rest ↔ Reads (next head) tail b rest := by
  simp only [reads_bind_iff, reads_take_iff h]
  exact ⟨fun ⟨_, _, ⟨rfl, rfl⟩, h⟩ => h, fun h => ⟨_, _, ⟨rfl, rfl⟩, h⟩⟩

/-- What comes first is left out, and the next step goes on behind it. -/
theorem reads_skip_bind_iff {count : ℕ} {next : Unit → Scan β} {b : β} (h : head.length = count) :
    Reads (skip count >>= next) (head ++ tail) b rest ↔ Reads (next ()) tail b rest := by
  rw [skip, bind_assoc, reads_take_bind_iff h, pure_bind]

/-- A field gives back its number without what did not fit, which was cut off at the top. -/
theorem reads_number_bind_iff {width n : ℕ} {next : ℕ → Scan β} {b : β} :
    Reads (number width >>= next) (field width n ++ tail) b rest ↔
      Reads (next (n % 256 ^ width)) tail b rest := by
  rw [number, bind_assoc, reads_take_bind_iff (length_field width n), pure_bind, valueOf_field]

/-- What there is to read is looked at and stays, for a later step to read. -/
theorem reads_get_bind_iff {next : List UInt8 → Scan β} {b : β} :
    Reads (get >>= next) bytes b rest ↔ Reads (next bytes) bytes b rest :=
  Iff.rfl

/-- A condition that is asked for holds, or else nothing is read. -/
theorem reads_require_bind_iff {condition : Bool} {flaw : Flaw} {next : Unit → Scan β} {b : β} :
    Reads (require condition flaw >>= next) bytes b rest ↔
      condition = true ∧ Reads (next ()) bytes b rest := by
  cases condition with
  | true =>
    rw [require, if_pos rfl, pure_bind]
    exact (and_iff_right rfl).symm
  | false =>
    have hrefused : ¬Reads (require false flaw >>= next) bytes b rest := by
      rw [Reads, StateT.run_bind]
      exact nofun
    exact ⟨fun h => absurd h hrefused, fun h => Bool.noConfusion h.1⟩

end Scan

open Scan

/-! ## The format chunk -/

namespace Format

/-- The format that the fields of a header give back. -/
def wrapped (f : Format) : Format where
  channels := f.channels % 2 ^ 16
  rate := f.rate % 2 ^ 32
  bits := f.bits
  encoding := f.encoding
  width := f.width * f.channels % 2 ^ 16 / (f.channels % 2 ^ 16)

/-- What the fields of a header have to satisfy to be read. -/
structure Consistent (f : Format) : Prop where
  /-- there are channels -/
  channels_ne_zero : f.wrapped.channels ≠ 0
  /-- samples are wide enough for their bits -/
  bits_le : f.bits ≤ 8 * f.wrapped.width
  /-- samples are not too wide -/
  width_lt : 8 * f.wrapped.width < 0x10000
  /-- the bytes for a second are those of so many frames -/
  second_eq : f.rate * f.width * f.channels % 2 ^ 32 =
    f.width * f.channels % 2 ^ 16 * f.wrapped.rate

/-- The formats that files are written in. -/
def IsWritten (f : Format) : Prop :=
  ∃ s : Shape, s.bits ∈ [8, 16, 24, 32] ∧ f = ofSpec (.ofShape s)

variable {f g : Format} {tail rest : List UInt8}

theorem length_commonFields (f : Format) (code : ℕ) : (f.commonFields code).length = 16 := by
  simp only [commonFields, List.length_append, length_field]

theorem length_identifier (e : Encoding) : e.identifier.length = 16 := by
  cases e <;> rfl

theorem length_extensibleFields (f : Format) : f.extensibleFields.length = 24 := by
  simp only [extensibleFields, List.length_append, length_field, length_identifier]

theorem length_body_le (f : Format) : f.body.length ≤ 40 := by
  rw [body]
  split
  · rw [length_commonFields]
    norm_num
  · rw [List.length_append, length_commonFields, length_extensibleFields]

theorem reads_commonFields_iff {length code : ℕ} (hlength : 16 ≤ length) (hcode : code < 2 ^ 16)
    (hbits : f.bits ∈ [8, 16, 24, 32]) :
    Reads (scanFormat length) (f.commonFields code ++ tail) g rest ↔
      f.Consistent ∧ Reads (match code with
        | 1 => scanInteger { f.wrapped with encoding := .integer } length
        | 3 => scanFloat { f.wrapped with encoding := .integer } length
        | 0xfffe => scanExtensible { f.wrapped with encoding := .integer } length
        | _ => throw .unsupported) tail g rest := by
  have hword : 256 ^ 2 = 2 ^ 16 := rfl
  have hlong : 256 ^ 4 = 2 ^ 32 := rfl
  have hfits : f.bits % 2 ^ 16 = f.bits ∧ f.bits % 8 = 0 ∧ f.bits ≠ 0 := by
    simp only [List.mem_cons, List.not_mem_nil, or_false] at hbits
    omega
  simp only [scanFormat, commonFields, List.append_assoc, reads_require_bind_iff,
    reads_number_bind_iff, hword, hlong, hfits, Nat.mod_eq_of_lt hcode, Bool.and_eq_true,
    decide_eq_true_eq]
  constructor
  · rintro ⟨-, hchannels, ⟨hwide, hnarrow⟩, hsecond, -, -, hrest⟩
    exact ⟨⟨hchannels, hwide, hnarrow, hsecond⟩, hrest⟩
  · rintro ⟨hfields, hrest⟩
    exact ⟨hlength, hfields.channels_ne_zero, ⟨hfields.bits_le, hfields.width_lt⟩,
      hfields.second_eq, trivial, hfits.2.2, hrest⟩

/-- The short form of the format chunk holds whole numbers of few bits, and is read if its
fields agree. -/
theorem reads_short_iff (hbits : f.bits ∈ [8, 16]) (hencoding : f.encoding = .integer) :
    Reads (scanFormat 16) (f.commonFields f.encoding.code ++ tail) g rest ↔
      f.Consistent ∧ g = f.wrapped ∧ rest = tail := by
  have hbits' : f.bits ∈ [8, 16, 24, 32] := by
    simp only [List.mem_cons, List.not_mem_nil, or_false] at hbits ⊢
    omega
  have hread : scanInteger { f.wrapped with encoding := .integer } 16 = pure f.wrapped := by
    rw [wrapped, hencoding]
    rfl
  rw [hencoding, Encoding.code, reads_commonFields_iff le_rfl (by norm_num) hbits']
  simp only [hread, reads_pure_iff]

theorem reads_extended_iff (hbits : f.bits ∈ [8, 16, 24, 32]) :
    Reads (scanFormat 40) (f.commonFields 0xfffe ++ (f.extensibleFields ++ tail)) g rest ↔
      f.Consistent ∧ g = f.wrapped ∧ rest = tail := by
  rw [reads_commonFields_iff (by norm_num) (by norm_num) hbits]
  have hfits : f.bits % 256 ^ 2 = f.bits ∧ f.bits ≠ 0 := by
    simp only [List.mem_cons, List.not_mem_nil, or_false] at hbits
    omega
  have hencoding : encodingOf? f.encoding.identifier = some f.encoding := by
    cases f.encoding <;> rfl
  simp only [scanExtensible, extensibleFields, List.append_assoc, reads_require_bind_iff,
    reads_number_bind_iff, reads_skip_bind_iff (length_field ..),
    reads_take_bind_iff (length_identifier _), hencoding, hfits, if_false, reads_pure_iff]
  exact and_congr_right fun _ => ⟨fun h => h.2.2, fun h => ⟨rfl, rfl, h⟩⟩

/-- **The format chunk.** What is read from it are its fields, if they are consistent. -/
theorem reads_body_iff (hf : f.IsWritten) :
    Reads (scanFormat f.body.length) (f.body ++ tail) g rest ↔
      f.Consistent ∧ g = f.wrapped ∧ rest = tail := by
  obtain ⟨s, hbits, rfl⟩ := hf
  rw [body]
  split
  · rename_i hshort
    have hfew : s.bits ∈ [8, 16] := by
      have hless : s.bits ≤ 16 := of_decide_eq_true (Bool.and_eq_true_iff.mp hshort).2
      simp only [List.mem_cons, List.not_mem_nil, or_false] at hbits ⊢
      omega
    have hencoding : (ofSpec (.ofShape s)).encoding = .integer := by
      refine if_neg ?_
      simp only [List.mem_cons, List.not_mem_nil, or_false] at hfew
      omega
    rw [length_commonFields]
    exact reads_short_iff hfew hencoding
  · have hlength : ((ofSpec (.ofShape s)).commonFields 0xfffe ++
        (ofSpec (.ofShape s)).extensibleFields).length = 40 := by
      rw [List.length_append, length_commonFields, length_extensibleFields]
    rw [hlength, List.append_assoc]
    exact reads_extended_iff hbits

/-! ## The header -/

variable {data : List UInt8} {h : Header} {count : ℕ}

theorem reads_fmt_chunk_iff {before : Option Format} (hf : f.IsWritten) :
    Reads (scanChunks (count + 1) before) (chunk "fmt " f.body ++ tail) h rest ↔
      f.Consistent ∧ Reads (scanChunks count (some f.wrapped)) tail h rest := by
  have hname : (tag "fmt ").length = 4 := by decide
  have hlength : f.body.length % 256 ^ 4 = f.body.length :=
    Nat.mod_eq_of_lt (f.length_body_le.trans_lt (by norm_num))
  simp only [scanChunks, chunk, List.append_assoc, reads_take_bind_iff hname,
    reads_number_bind_iff, hlength, if_true]
  rw [reads_bind_iff]
  simp only [reads_body_iff hf]
  constructor
  · rintro ⟨_, _, ⟨hfields, rfl, rfl⟩, hrest⟩
    exact ⟨hfields, hrest⟩
  · rintro ⟨hfields, hrest⟩
    exact ⟨_, _, ⟨hfields, rfl, rfl⟩, hrest⟩

theorem reads_data_chunk_iff :
    Reads (scanChunks (count + 1) (some g)) (chunk "data" data) h rest ↔
      data.length % 2 ^ 32 % g.width = 0 ∧ data.length % 2 ^ 32 / g.width % g.channels = 0 ∧
        h = ⟨g, data.length % 2 ^ 32 / g.width⟩ ∧ rest = data := by
  have hname : (tag "data").length = 4 := by decide
  have hfmt : tag "data" ≠ tag "fmt " := by decide
  have hfact : tag "data" ≠ tag "fact" := by decide
  have hlong : 256 ^ 4 = 2 ^ 32 := rfl
  simp only [scanChunks, chunk, List.append_assoc, reads_take_bind_iff hname,
    reads_number_bind_iff, hfmt, hfact, if_false, if_true, headerOf, reads_require_bind_iff,
    reads_pure_iff, hlong, decide_eq_true_eq]

theorem reads_file_iff (hf : f.IsWritten) :
    Reads scanHeader (fileOf f data) h rest ↔
      f.Consistent ∧ data.length % 2 ^ 32 % f.wrapped.width = 0 ∧
        data.length % 2 ^ 32 / f.wrapped.width % f.wrapped.channels = 0 ∧
        h = ⟨f.wrapped, data.length % 2 ^ 32 / f.wrapped.width⟩ ∧ rest = data := by
  have hriff : (tag "RIFF").length = 4 := by decide
  have hwave : (tag "WAVE").length = 4 := by decide
  simp only [scanHeader, fileOf]
  rw [chunk]
  have hchunks : 2 ≤ (chunk "fmt " f.body ++ chunk "data" data).length := by
    simp only [chunk, List.length_append, length_field]
    omega
  obtain ⟨count, hcount⟩ := Nat.exists_eq_add_of_le' hchunks
  simp only [List.append_assoc, reads_take_bind_iff hriff, reads_require_bind_iff,
    reads_skip_bind_iff (length_field ..), reads_take_bind_iff hwave, reads_get_bind_iff]
  rw [hcount, reads_fmt_chunk_iff hf, reads_data_chunk_iff]
  exact ⟨fun h => h.2.2, fun h => ⟨rfl, rfl, h⟩⟩

/-- The numbers of a header fit their fields, and there is a rate: what a file can hold. -/
structure Fits (f : Format) (frames : ℕ) : Prop where
  /-- frames come at some rate -/
  rate_pos : 0 < f.rate
  /-- the width of a frame has two bytes -/
  frame_lt : f.width * f.channels < 2 ^ 16
  /-- the bytes for a second have four -/
  second_lt : f.rate * f.width * f.channels < 2 ^ 32
  /-- so has the number of bytes of all samples -/
  data_lt : f.width * (frames * f.channels) < 2 ^ 32

/-- The samples of a format that is written fill their bytes, of which there are one to
four. -/
theorem IsWritten.bits_eq (hf : f.IsWritten) :
    f.bits = 8 * f.width ∧ 0 < f.width ∧ f.width ≤ 4 := by
  obtain ⟨s, hbits, rfl⟩ := hf
  simp only [List.mem_cons, List.not_mem_nil, or_false] at hbits
  rcases hbits with h | h | h | h <;> simp [ofSpec, Spec.ofShape, h]

/-- Numbers that fit their fields come back, so the format is what it was. -/
theorem Fits.wrapped_eq {frames : ℕ} (h : f.Fits frames) (hwidth : 0 < f.width)
    (hchannels : 0 < f.channels) : f.wrapped = f := by
  have hframe := h.frame_lt
  have hfew : f.channels < 2 ^ 16 := (Nat.le_mul_of_pos_left _ hwidth).trans_lt hframe
  have hslow : f.rate < 2 ^ 32 := by
    have hsecond := h.second_lt
    rw [Nat.mul_assoc] at hsecond
    exact (Nat.le_mul_of_pos_right _ (Nat.mul_pos hwidth hchannels)).trans_lt hsecond
  rw [wrapped, Nat.mod_eq_of_lt hfew, Nat.mod_eq_of_lt hslow, Nat.mod_eq_of_lt hframe,
    Nat.mul_div_cancel _ hchannels]

theorem Fits.consistent {frames : ℕ} (h : f.Fits frames) (hf : f.IsWritten)
    (hchannels : 0 < f.channels) : f.Consistent := by
  obtain ⟨hbits, hwidth, hnarrow⟩ := hf.bits_eq
  have hwrapped := h.wrapped_eq hwidth hchannels
  refine ⟨?_, ?_, ?_, ?_⟩
  · rw [hwrapped]
    exact hchannels.ne'
  · rw [hwrapped, hbits]
  · rw [hwrapped]
    omega
  · rw [hwrapped, Nat.mod_eq_of_lt h.second_lt, Nat.mod_eq_of_lt h.frame_lt]
    ring

/-- **The header.** The header of a file is read as it was written, and the bytes of the samples are
left, exactly if its numbers fit their fields. -/
theorem reads_header_iff (hf : f.IsWritten) (hchannels : 0 < f.channels) (hrate : 0 < f.rate)
    {frames : ℕ} (hdata : data.length = f.width * (frames * f.channels)) :
    Reads scanHeader (fileOf f data) ⟨f, frames * f.channels⟩ data ↔ f.Fits frames := by
  obtain ⟨-, hwidth, -⟩ := hf.bits_eq
  rw [reads_file_iff hf, hdata]
  constructor
  · rintro ⟨hfields, -, -, hheader, -⟩
    obtain ⟨hformat, hcount⟩ := Header.mk.inj hheader
    have hframe : f.width * f.channels ≤ f.width * f.channels % 2 ^ 16 := by
      have hwide : f.width = f.width * f.channels % 2 ^ 16 / f.wrapped.channels :=
        congrArg Format.width hformat
      rw [← hformat] at hwide
      exact (Nat.le_div_iff_mul_le hchannels).mp hwide.le
    have hless := Nat.mod_lt (f.width * f.channels) (by norm_num : 0 < 2 ^ 16)
    refine ⟨hrate, by omega, ?_, ?_⟩
    · have hsecond := hfields.second_eq
      rw [← hformat, Nat.mod_eq_of_lt (by omega : f.width * f.channels < 2 ^ 16)] at hsecond
      have hmod := Nat.mod_lt (f.rate * f.width * f.channels) (by norm_num : 0 < 2 ^ 32)
      calc
        f.rate * f.width * f.channels = f.width * f.channels * f.rate := by ring
        _ < 2 ^ 32 := hsecond ▸ hmod
    · rw [← hformat] at hcount
      have hbytes := (Nat.le_div_iff_mul_le hwidth).mp hcount.le
      have hmod := Nat.mod_lt (f.width * (frames * f.channels)) (by norm_num : 0 < 2 ^ 32)
      calc
        f.width * (frames * f.channels) = frames * f.channels * f.width := by ring
        _ < 2 ^ 32 := hbytes.trans_lt hmod
  · intro hfits
    rw [hfits.wrapped_eq hwidth hchannels, Nat.mod_eq_of_lt hfits.data_lt,
      Nat.mul_div_cancel_left _ hwidth]
    exact ⟨hfits.consistent hf hchannels, Nat.mul_mod_right .., Nat.mul_mod_left .., rfl, rfl⟩

end Format

end Compander.Wave
