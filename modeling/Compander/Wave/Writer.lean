import Compander.Wave.Container

/-!
# Writing wave files

The bytes of a wave file (`Wave.fileOf`): the `RIFF` chunk with the format, in its short
form where that is enough, and the samples. Every number of the header has a field of
fixed width, least byte first, and of a number that is too great for its field only the
lowest bytes are in the file.

* `Wave.chunk` — a name, a length, and as many bytes;
* `Wave.Format.body` — the format chunk, in its short or its extensible form;
* `Wave.store` — the file of some samples, for a shape that has channels and a rate.

The short form is for at most two channels and for depths of at most 16 bits. The
extensible one is for any, and says which loudspeakers the channels are meant for.

A file is put together as a whole, from its samples outward, so that the lengths in it
are those of what is there.
-/

namespace Compander.Wave

/-- The name of a chunk, as bytes, of which there are four. -/
def tag (name : String) : List UInt8 :=
  name.toList.map fun c => c.toNat.toUInt8

/-- A chunk: its name, its length, and its bytes, without any padding after them. -/
def chunk (name : String) (body : List UInt8) : List UInt8 :=
  tag name ++ field 4 body.length ++ body

/-- What the two forms of an encoding's identifier share, the bytes after the code. -/
def identifierTail : List UInt8 :=
  [0x00, 0x00, 0x00, 0x00, 0x10, 0x00, 0x80, 0x00, 0x00, 0xaa, 0x00, 0x38, 0x9b, 0x71]

/-- The number of an encoding, as the format chunk has it. -/
def Encoding.code : Encoding → Nat
  | .integer => 1
  | .float => 3

/-- The identifier of an encoding in the extensible format: its code, and the tail that all
codes have. -/
def Encoding.identifier (e : Encoding) : List UInt8 :=
  field 2 e.code ++ identifierTail

namespace Format

/-- The format that samples are written in: as many bytes each as their bits take. -/
def ofSpec (s : Spec) : Format where
  toSpec := s
  width := (s.bits + 7) / 8

/-- Whether the short form of the format chunk is enough, for which channels and depth
count. -/
def isShort (f : Format) : Bool :=
  f.channels ≤ 2 && f.bits ≤ 16

/-- The fields that every format chunk has, with the code that stands first. -/
def commonFields (f : Format) (code : Nat) : List UInt8 :=
  field 2 code ++ field 2 f.channels ++ field 4 f.rate
    ++ field 4 (f.rate * f.width * f.channels) ++ field 2 (f.width * f.channels)
    ++ field 2 f.bits

/-- The loudspeakers that the channels stand for: the first ones, one for each
channel as long as there are any. -/
def channelMask (f : Format) : Nat :=
  Nat.pow 2 (min f.channels 18) - 1

/-- The fields that the extensible format adds, from its own length to the identifier. -/
def extensibleFields (f : Format) : List UInt8 :=
  field 2 22 ++ field 2 f.bits ++ field 4 f.channelMask ++ f.encoding.identifier

/-- The body of the format chunk, in the short form or the extensible one. -/
def body (f : Format) : List UInt8 :=
  if f.isShort then f.commonFields f.encoding.code
  else f.commonFields 0xfffe ++ f.extensibleFields

end Format

/-- The bytes of a file whose samples are some bytes, with the lengths that follow from
them. -/
def fileOf (f : Format) (data : List UInt8) : List UInt8 :=
  chunk "RIFF" (tag "WAVE" ++ chunk "fmt " f.body ++ chunk "data" data)

/-- The bytes of a file of some samples. A shape without rate or without channels is a
fault of the caller: the length of a second and that of a frame are divided by. -/
def store (s : Spec) (samples : Samples) : Except AudioError (List UInt8) := do
  if s.rate = 0 then throw (.fault .noRate)
  if s.channels = 0 then throw (.fault .noChannels)
  return fileOf (Format.ofSpec s) (samples.encode (Format.ofSpec s).width)

end Compander.Wave
