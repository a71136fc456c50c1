import Compander.Files
import Compander.Sink

/-!
# The format of wave files

A wave file is a `RIFF` chunk of form `WAVE` that holds further chunks: the format
of the samples (`fmt `), and the samples themselves (`data`), frame after frame.
This module holds the format, in three layers, and what can be wrong with a file.

* `Wave.Shape` — channels, rate and depth, as the callers see them;
* `Wave.Spec` — the shape with the encoding of the samples: what a container is told
  when it is written and tells when it is read;
* `Wave.Format` — the same with the bytes that a sample takes: what is in the file;
* `WaveError`, `AudioError` — what is wrong with a file, or with what is to be
  written to one.

Which encoding samples are written in follows from the shape: singles at 32 bits and
whole numbers at any other depth (`Wave.Spec.ofShape`).
-/

namespace Compander

namespace Wave

/-- The shape of a recording: what is known of it apart from its samples. -/
structure Shape where
  /-- the number of channels -/
  channels : Nat := 1
  /-- samples per second -/
  rate : Nat := 48000
  /-- bits of each sample that count -/
  bits : Nat := 32
  deriving DecidableEq, Repr

/-- How samples are encoded: as whole numbers or as singles. -/
inductive Encoding where
  /-- as whole numbers -/
  | integer
  /-- as singles -/
  | float
  deriving DecidableEq, Repr

/-- The shape of a recording, and how its samples are encoded. -/
structure Spec extends Shape where
  /-- how samples are encoded -/
  encoding : Encoding
  deriving DecidableEq, Repr

/-- What a recording of a shape is written as: singles at 32 bits, and whole numbers at
any other depth. -/
def Spec.ofShape (s : Shape) : Spec where
  toShape := s
  encoding := if s.bits = 32 then .float else .integer

/-- The format of the samples of a file, down to the bytes that one of them takes. -/
structure Format extends Spec where
  /-- bytes that each sample takes -/
  width : Nat
  deriving DecidableEq, Repr

/-- What is ill-formed in a file, by what a reader of it comes upon first. -/
inductive Flaw where
  /-- the file is no `RIFF` chunk -/
  | noRiff
  /-- the `RIFF` chunk is not of the form `WAVE` -/
  | noWave
  /-- the format chunk does not hold the common fields -/
  | formatTooShort
  /-- there are no channels -/
  | noChannels
  /-- samples have more bits than the bytes they are stored in -/
  | tooManyBits
  /-- the bytes per second do not follow from rate and frame size -/
  | inconsistent
  /-- the bits of a sample do not fill bytes -/
  | partialByte
  /-- samples have no bits -/
  | noBits
  /-- the format chunk has not the size that its tag asks for -/
  | formatSize
  /-- whole numbers of a depth that the extended chunk does not admit -/
  | integerBits
  /-- a size of extra fields where none are due -/
  | extraSize
  /-- floats that are not singles -/
  | floatBits
  /-- extra fields of another size than the extensible format has -/
  | extensibleSize
  /-- samples before any format -/
  | noFormat
  /-- the samples end within a sample -/
  | partialSample
  /-- the samples end within a frame -/
  | partialFrame
  deriving DecidableEq, Repr

namespace Flaw

/-- The wording of a flaw, without what stands before every one of them. -/
def message : Flaw → String
  | noRiff => "no RIFF tag found"
  | noWave => "no WAVE tag found"
  | formatTooShort => "invalid fmt chunk size"
  | noChannels => "file contains zero channels"
  | tooManyBits => "sample bits exceeds size of sample"
  | inconsistent => "inconsistent fmt chunk"
  | partialByte => "bits per sample is not a multiple of 8"
  | noBits => "bits per sample is 0"
  | formatSize => "unexpected fmt chunk size"
  | integerBits => "bits per sample is not 8 or 16"
  | extraSize => "unexpected WAVEFORMATEX size"
  | floatBits => "bits per sample is not 32"
  | extensibleSize => "unexpected WAVEFORMATEXTENSIBLE size"
  | noFormat => "missing fmt chunk"
  | partialSample => "data chunk length is not a multiple of sample size"
  | partialFrame => "invalid data chunk length"

end Flaw

end Wave

/-- Why a wave file cannot be read or written: the disk, its end, a flaw, or a format that is
not supported. -/
inductive WaveError where
  /-- the file system refuses -/
  | file (fault : FileFault)
  /-- the file ends early -/
  | ended
  /-- the file is ill-formed -/
  | malformed (flaw : Wave.Flaw)
  /-- samples of a kind that is not read -/
  | unsupported
  /-- samples that are wider than any that are read -/
  | tooWide
  /-- the file says that it has no channels -/
  | noChannels

namespace WaveError

/-- The wording of an error, with that of the fault or the flaw in it. -/
def message : WaveError → String
  | file fault => fault.message
  | ended => "Failed to read enough bytes."
  | malformed flaw => "Ill-formed WAVE file: " ++ flaw.message
  | unsupported => "The wave format of the file is not supported."
  | tooWide => "The sample has more bits than the destination type."
  | noChannels => "file declares zero channels"

end WaveError

/-- Why audio cannot be brought in, processed, or put out, with errors of the files and of the
stream in one. -/
inductive AudioError where
  /-- the file does not do -/
  | wave (error : WaveError)
  /-- the stream does not go on -/
  | stream (error : StreamError)
  /-- floats of that many bits are not read -/
  | floatBits (bits : Nat)
  /-- samples of that many bits are not written -/
  | outputBits (bits : Nat)
  /-- the call broke a rule -/
  | fault (fault : Fault)

namespace AudioError

/-- The wording of an error. A file without channels counts as one of a format that is not
read, whatever its container says of it. -/
def message : AudioError → String
  | wave .noChannels => "Unsupported sample format: " ++ WaveError.noChannels.message
  | wave error => "WAV file error: " ++ error.message
  | stream error => error.message
  | floatBits bits => s!"Unsupported sample format: {bits}-bit float"
  | outputBits bits => s!"Unsupported sample format: {bits}-bit output"
  | fault f => f.message

/-- The cause of an error, if it only wraps one. -/
def causes : AudioError → List String
  | wave .noChannels => []
  | wave error => [error.message]
  | stream (.setup error) => [error.message]
  | _ => []

end AudioError

end Compander
