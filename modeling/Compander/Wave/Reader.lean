import Compander.Wave.Writer

/-!
# Reading wave files

The bytes of a wave file are read by going through its chunks in order up to the samples;
of several formats the last one holds, and chunks of other kinds do not matter. A step
of reading (`Wave.Scan`) takes bytes from the front of what is left, or ends with what is
wrong with them.

* `Wave.scanHeader` — all that comes before the samples;
* `Wave.describe` — what the header of a file says;
* `Wave.riff` — the bytes of a wave file as a container;
* `Wave.decode` — the recording in them;
* `Wave.load`, `Wave.loadSummary`, `Wave.save` — the same with files.
-/

namespace Compander.Wave

/-- A step of reading: what it yields, and the bytes that it leaves. -/
abbrev Scan (α : Type) := StateT (List UInt8) (Except WaveError) α

namespace Scan

/-- The next bytes, as many as are asked for; fewer are the end of the file. -/
def take (count : Nat) : Scan (List UInt8) := fun bytes =>
  let head := bytes.take count
  if head.length = count then .ok (head, bytes.drop count) else .error .ended

/-- Leaves out some bytes, which have to be there all the same. -/
def skip (count : Nat) : Scan Unit := do
  let _ ← take count

/-- The number in the next bytes, the least byte first. -/
def number (width : Nat) : Scan Nat := do
  return valueOf (← take width)

/-- Ends reading with a flaw, whatever bytes are left. -/
def refuse {α : Type} (flaw : Flaw) : Scan α :=
  throw (.malformed flaw)

/-- Ends reading with a flaw unless a condition holds; reading goes on where it was. -/
def require (condition : Bool) (flaw : Flaw) : Scan Unit :=
  if condition then pure () else refuse flaw

end Scan

open Scan

/-! ## The format chunk -/

/-- The rest of a format chunk of a length for whole numbers, which may be longer than it need
be. -/
def scanInteger (f : Format) (length : Nat) : Scan Format := do
  require (length = 16 || length = 18 || length = 40) .formatSize
  if length ≠ 16 then
    skip 2
    require (f.bits = 8 || f.bits = 16 || f.bits = 24) .integerBits
  if length = 40 then skip 22
  return f

/-- The rest of a format chunk of a length for singles, whose extension has to be empty. -/
def scanFloat (f : Format) (length : Nat) : Scan Format := do
  require (length = 16 || length = 18) .formatSize
  if length = 18 then require ((← number 2) = 0) .extraSize
  require (f.bits = 32) .floatBits
  return { f with encoding := .float }

/-- The encoding of an identifier in the extensible format, if it is one of the two. -/
def encodingOf? (identifier : List UInt8) : Option Encoding :=
  [Encoding.integer, Encoding.float].find? (·.identifier = identifier)

/-- The rest of a format chunk of a length in the extensible format, which gives
the bits that count anew. -/
def scanExtensible (f : Format) (length : Nat) : Scan Format := do
  require (40 ≤ length) .formatSize
  require ((← number 2) = 22) .extensibleSize
  let bits ← number 2
  skip 4
  match encodingOf? (← take 16) with
  | some encoding => return { f with encoding, bits := if bits = 0 then f.bits else bits }
  | none => throw .unsupported

/-- The body of a format chunk of a length, by the code that it begins with. -/
def scanFormat (length : Nat) : Scan Format := do
  require (16 ≤ length) .formatTooShort
  let code ← number 2
  let channels ← number 2
  let rate ← number 4
  let bytesPerSecond ← number 4
  let frameWidth ← number 2
  let bits ← number 2
  require (channels ≠ 0) .noChannels
  let width := frameWidth / channels
  require (bits ≤ 8 * width && 8 * width < 0x10000) .tooManyBits
  require (bytesPerSecond = frameWidth * rate) .inconsistent
  require (bits % 8 = 0) .partialByte
  require (bits ≠ 0) .noBits
  let f : Format := { channels, rate, bits, encoding := .integer, width }
  match code with
  | 1 => scanInteger f length
  | 3 => scanFloat f length
  | 0xfffe => scanExtensible f length
  | _ => throw .unsupported

/-! ## The chunks -/

/-- What the chunks up to the samples say, when reading has come to the samples. -/
structure Header where
  /-- the format of the samples -/
  format : Format
  /-- how many samples there are, all channels taken together -/
  samples : Nat
  deriving Repr

/-- The header for samples of a length in a format, which have to fill whole samples and whole
frames. -/
def headerOf (format : Option Format) (length : Nat) : Scan Header := do
  match format with
  | none => refuse .noFormat
  | some f =>
    require (length % f.width = 0) .partialSample
    require (length / f.width % f.channels = 0) .partialFrame
    return ⟨f, length / f.width⟩

/-- Goes through at most a number of chunks, up to the samples. `format` is the
format so far. -/
def scanChunks : Nat → Option Format → Scan Header
  | 0, _ => throw .ended
  | count + 1, format => do
    let name ← take 4
    let length ← number 4
    if name = tag "fmt " then scanChunks count (some (← scanFormat length))
    else if name = tag "fact" then
      skip 4
      scanChunks count format
    else if name = tag "data" then headerOf format length
    else
      skip length
      scanChunks count format

/-- The header of a file; what remains are the samples. Every chunk takes eight
bytes at least, so there are fewer chunks than bytes. -/
def scanHeader : Scan Header := do
  require ((← take 4) = tag "RIFF") .noRiff
  skip 4
  require ((← take 4) = tag "WAVE") .noWave
  scanChunks (← get).length none

/-! ## The samples -/

variable {α : Type}

/-- The next samples, after those read so far, which are reversed. -/
def scanSamples (read : List UInt8 → α) (width : Nat) : Nat → List α → Scan (List α)
  | 0, done => return done.reverse
  | count + 1, done => do
    scanSamples read width count (read (← take width) :: done)

/-- All samples that a header announces, by a reader for their width and depth. Without
samples the reader is not asked for. -/
def scanData (reader : Nat → Nat → Except WaveError (List UInt8 → α)) (h : Header) :
    Scan (List α) := do
  if h.samples = 0 then return []
  scanSamples (← reader h.format.width h.format.bits) h.format.width h.samples []

/-- The samples in the bytes of a file, what follows them left aside. -/
def samplesOf (reader : Nat → Nat → Except WaveError (List UInt8 → α)) (bytes : List UInt8) :
    Except WaveError (List α) := do
  let (samples, _) ← (scanHeader >>= scanData reader).run bytes
  return samples

/-! ## Files -/

/-- What the header of a file says, for those who do not want its samples. -/
structure Summary extends Spec where
  /-- samples of each channel -/
  frames : Nat
  deriving Repr

namespace Summary

/-- The duration in seconds, at the rate that the header has. -/
def seconds (s : Summary) : Float :=
  Float.ofNat s.frames / Float.ofNat s.rate

end Summary

/-- What the header of a file says. The samples are not looked at. -/
def describe (bytes : List UInt8) : Except AudioError Summary := do
  let (h, _) ← (scanHeader.run bytes).mapError .wave
  return { toSpec := h.format.toSpec, frames := h.samples / h.format.channels }

/-- The bytes of a wave file as a container, with the writer and the readers of this
format. -/
def riff : Container (List UInt8) where
  store := store
  spec bytes := (scanHeader.run bytes).map fun (h, _) => h.format.toSpec
  integers := samplesOf integerReader
  singles := samplesOf singleReader

/-- The bytes of a file that holds some planes in a shape, or what is wrong with the planes or
the shape. -/
def encode (planes : List (List Float32)) (s : Shape) : Except AudioError (List UInt8) :=
  riff.encode planes s

/-- The recording in the bytes of a file, with whole numbers turned into samples. -/
def decode (bytes : List UInt8) : Except AudioError Recording :=
  riff.decode bytes

variable {m : Type → Type} [Monad m] [Files m]

/-- What the header of a file on a path says, or why there is none. -/
def loadSummary (path : String) : m (Except AudioError Summary) := do
  return ((← Files.readBytes path).mapError fun fault => .wave (.file fault)).bind describe

/-- The recording in a file on a path, or why there is none. -/
def load (path : String) : m (Except AudioError Recording) := do
  return ((← Files.readBytes path).mapError fun fault => .wave (.file fault)).bind decode

/-- Puts planes into a file on a path, in a shape. Nothing is written unless the bytes are
complete. -/
def save (path : String) (planes : List (List Float32)) (s : Shape) :
    m (Except AudioError Unit) := do
  match encode planes s with
  | .error error => return .error error
  | .ok bytes =>
    return (← Files.writeBytes path bytes).mapError fun fault => .wave (.file fault)

end Compander.Wave
