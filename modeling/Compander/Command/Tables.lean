import Compander.Command
import Compander.Loudness
import Compander.Text.Json
import Compander.Transfer
import Compander.Wave.Reader

/-!
# Tables

What the commands show of a curve, of a recording and of a preset, as lines and as
JSON.

* `Levels.toList` — the levels at which a curve is shown;
* `Transfer.lines`, `Transfer.json` — the curve at these levels;
* `Loudness.sentence`, `Loudness.json` — how loud samples are;
* `Wave.Sheet.lines`, `Wave.Sheet.json` — what is in a file.

Lines are for people and have few places; JSON is for programs, with every digit
that the numbers have.
-/

namespace Compander

/-! ## Curves -/

namespace Levels

/-- How many levels there are. The last one may lie above the end by the billionth
part of a step. -/
def count (l : Levels) : Nat :=
  let steps := (l.high - l.low) / l.step + 1e-9
  let last :=
    match Binary.ofDouble? steps with
    | some b => b.floor.toNat
    | none => if 0.0 < steps then 0xffffffffffffffff else 0
  (min last 0xffffffffffffffff + 1) % 0x10000000000000000

/-- The level at an index, counted from the lowest one without adding up roundings. -/
def level (l : Levels) (i : Nat) : Float :=
  l.low + Float.ofNat i * l.step

/-- All levels in order, from the lowest to the last that is not beyond the end. -/
def toList (l : Levels) : List Float :=
  (List.range l.count).map l.level

end Levels

namespace Transfer

/-- What is shown of a curve at an input level: the level, the output level and the
gain, in dB. -/
def row (curve : Transfer Float32) (input : Float) : List Float :=
  [input, curve.outputDecibels input, curve.gainDecibels input]

/-- A table of a curve, a line for each level below the names of the columns. -/
def lines (curve : Transfer Float32) (levels : Levels) : List String :=
  let line (cells : List String) : String :=
    String.intercalate "  " (cells.map (Text.padLeft 10))
  line ["in (dB)", "out (dB)", "gain (dB)"] ::
    levels.toList.map fun input => line ((curve.row input).map (Decimal.fixed 2))

/-- A table of a curve as JSON, an object for each of its rows. -/
def json (curve : Transfer Float32) (levels : Levels) : Json :=
  .array (levels.toList.map fun input =>
    .object (List.zip ["input_db", "output_db", "gain_db"]
      ((curve.row input).map fun x => .literal (Decimal.Spelling.json.ofDouble x))))

end Transfer

/-! ## Recordings -/

namespace Loudness

/-- A level with one place, or a hyphen if there is none. -/
def cell : Option Float32 → String
  | some level => Decimal.fixed 1 (Binary.widen level)
  | none => "-"

/-- Both levels of some samples, in a sentence. Without samples they are infinitely
low. -/
def sentence (samples : List Float32) : String :=
  let text (level : Option Float32) : String :=
    Decimal.fixed 1 ((level.map Binary.widen).getD (-1.0 / 0.0))
  "RMS " ++ text (rms samples) ++ " dB, Peak " ++ text (peak samples) ++ " dB"

/-- A level as JSON, where `null` stands for that there is none. -/
def json : Option Float32 → Json
  | some level => .literal (Decimal.Spelling.jsonSingle.ofSingle level)
  | none => .literal "null"

end Loudness

namespace Wave

/-- What is shown of a file: its summary, its samples, and a lookahead in seconds
with its length in samples. -/
structure Sheet where
  /-- what the header says -/
  summary : Summary
  /-- the samples of each channel -/
  planes : List (List Float32)
  /-- a lookahead to show the length of -/
  delay : Option Float

namespace Sheet

/-- The name of the encoding, as people call it. -/
def encodingName (s : Sheet) : String :=
  match s.summary.encoding with
  | .integer => "PCM"
  | .float => "IEEE Float"

/-- The lookahead in samples, at the rate of the file. -/
def lookahead (s : Sheet) (delay : Float) : Nat :=
  Decibel.samplesIn delay s.summary.rate

/-- A row of the table of channels, its columns in line with those of the others. -/
def line (channel peak rms : String) : String :=
  Text.padLeft 7 channel ++ "  " ++ Text.padLeft 10 peak ++ "  " ++ Text.padLeft 10 rms

/-- The sheet of the file on a path, as lines, with a table of its channels. -/
def lines (s : Sheet) (path : String) : List String :=
  let summary := s.summary
  ["File:        " ++ path,
    s!"Format:      {s.encodingName} {summary.bits}-bit",
    s!"Channels:    {summary.channels}",
    s!"Sample Rate: {summary.rate} Hz",
    "Duration:    " ++ Decimal.fixed 3 summary.seconds ++ s!"s ({summary.frames} frames)"]
    ++ (s.delay.map fun delay =>
      "Lookahead:   " ++ Decimal.plain delay ++ s!"s = {s.lookahead delay} samples").toList
    ++ ["", line "channel" "peak (dB)" "RMS (dB)"]
    ++ s.planes.mapIdx fun channel plane =>
      line (toString channel) (Loudness.cell (Loudness.peak plane))
        (Loudness.cell (Loudness.rms plane))

/-- The sheet as JSON, in the same order as the lines. -/
def json (s : Sheet) : Json :=
  let summary := s.summary
  let number (n : Nat) : Json := .literal (toString n)
  .object
    ([("format", .word s.encodingName), ("bits_per_sample", number summary.bits),
      ("channels", number summary.channels), ("sample_rate", number summary.rate),
      ("frames", number summary.frames),
      ("duration_secs", .literal (Decimal.Spelling.json.ofDouble summary.seconds))]
      ++ (s.delay.map fun delay => ("lookahead_samples", number (s.lookahead delay))).toList
      ++ [("levels", .array (s.planes.mapIdx fun channel plane =>
        .object [("channel", number channel), ("peak_db", Loudness.json (Loudness.peak plane)),
          ("rms_db", Loudness.json (Loudness.rms plane))]))])

end Sheet

end Wave

end Compander
