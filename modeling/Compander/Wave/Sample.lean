import Compander.Binary
import Compander.Wave.Format

/-!
# Samples in bytes

Whole numbers and singles as little-endian bytes, and samples as either:

* `field`, `valueOf`, `signedValueOf` — numbers to and from bytes, least byte
  first;
* `quantize`, `level` — a sample to and from a whole number of a depth;
* `Samples` — the samples of a file, in either encoding;
* `encodeInteger`, `integerReader`, `encodeSingle`, `singleReader` — one of them to
  and from the bytes of a file.

The range of a depth reaches from the negative of a power of two to one below it, so
the sample `1` has no whole number of its own and becomes the greatest that there is.
-/

namespace Compander.Wave

/-! ## Numbers in bytes -/

/-- The lowest bytes of a number, least byte first. What does not fit is left out. -/
def field : Nat → Nat → List UInt8
  | 0, _ => []
  | width + 1, n => (n % 256).toUInt8 :: field width (n / 256)

/-- The number of some bytes, least byte first, without a sign. -/
def valueOf : List UInt8 → Nat
  | [] => 0
  | byte :: rest => byte.toNat + 256 * valueOf rest

/-- The bytes of a number with a sign: below zero they are those of the number plus
the first power of two that does not fit. -/
def signedField (width : Nat) (n : Int) : List UInt8 :=
  field width (n % (Nat.pow 256 width : Nat)).toNat

/-- The number with a sign of some bytes, of which the highest says what the sign is. -/
def signedValueOf (bytes : List UInt8) : Int :=
  Int.bmod (valueOf bytes) (Nat.pow 256 bytes.length)

/-! ## Samples as whole numbers -/

/-- The whole number that stands for the sample `1` at a depth. It is one above the
range of the depth, which begins at its negative. -/
def fullScale (bits : Nat) : Nat :=
  Nat.pow 2 (bits - 1)

/-- A whole number held within the range of a depth: one beyond an end becomes that end. -/
def hold (bits : Nat) (n : Int) : Int :=
  max (-(fullScale bits : Int)) (min ((fullScale bits : Int) - 1) n)

/-- The whole number for a sample: scaled, cut toward zero, and held within the
range of the depth. What is not a number becomes zero. -/
def quantize (bits : Nat) (sample : Float32) : Int :=
  match Binary.ofSingle? sample with
  | some b => hold bits (b.scale (bits - 1 : Nat)).truncate
  | none =>
    if sample.isNaN then 0
    else if sample < 0.0 then -(fullScale bits : Int)
    else (fullScale bits : Int) - 1

/-- The sample that a whole number stands for, as a part of full scale. -/
def level (bits : Nat) (n : Int) : Float32 :=
  ((Binary.ofInt n).scale (-(bits - 1 : Nat))).toSingle

/-! ## Samples in a file -/

/-- The samples of a file in the encoding that it has, frame after frame. -/
inductive Samples where
  /-- whole numbers -/
  | integers (list : List Int)
  /-- singles -/
  | singles (list : List Float32)

namespace Samples

/-- Samples as they are written at a depth: as they are with 32 bits, and as whole numbers
with fewer. -/
def ofSingles (bits : Nat) (list : List Float32) : Samples :=
  if bits = 32 then singles list else integers (list.map (quantize bits))

/-- Samples as they are read at a depth: singles as they are, and for whole numbers what
they stand for. -/
def toSingles (bits : Nat) : Samples → List Float32
  | integers list => list.map (level bits)
  | singles list => list

end Samples

/-- The bytes of a whole number in a file. One byte holds the number without a
sign, around `128`. -/
def encodeInteger (width : Nat) (n : Int) : List UInt8 :=
  signedField width (if width = 1 then n + 128 else n)

/-- The bytes of a single in a file, which are those of its bits. -/
def encodeSingle (width : Nat) (x : Float32) : List UInt8 :=
  field width x.toBits.toNat

/-- The bytes of the samples of a file, which take a number of bytes each. -/
def Samples.encode (width : Nat) : Samples → List UInt8
  | integers list => list.flatMap (encodeInteger width)
  | singles list => list.flatMap (encodeSingle width)

/-- How whole numbers of a width are read, for the depths that are read at all. A
depth of 24 may take four bytes, of which the last one does not count. -/
def integerReader (width bits : Nat) : Except WaveError (List UInt8 → Int) :=
  match width, bits with
  | 1, 8 => .ok fun bytes => (valueOf bytes : Int) - 128
  | 2, 16 => .ok signedValueOf
  | 3, 24 => .ok signedValueOf
  | 4, 24 => .ok fun bytes => signedValueOf (bytes.take 3)
  | 4, 32 => .ok signedValueOf
  | width, _ => .error (if 4 < width then .tooWide else .unsupported)

/-- How singles of a width are read; there is only one width that is. -/
def singleReader (width bits : Nat) : Except WaveError (List UInt8 → Float32) :=
  if width = 4 ∧ bits = 32 then .ok fun bytes => Float32.ofBits (valueOf bytes).toUInt32
  else .error (if 4 < width then .tooWide else .unsupported)

end Compander.Wave
