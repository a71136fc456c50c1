import Compander.Preset.Factory
import Compander.Text.Blank

/-!
# The catalogue of presets

What the commands show of the factory presets, and of one preset.

* `Preset.entryLines`, `Preset.catalogue` — all factory presets, with what each of
  them is for;
* `Preset.sheet` — one preset, with what its parameters come to.

A preset is shown by its parameters rather than by its own fields, so it does not
matter whether a value is in its option text or stands beside it.

The factory presets are in the order in which they are kept, and columns are as wide
as the catalogue asks for, not as wide as their entries.
-/

namespace Compander.Preset

/-- The lines for a factory preset: what it is for, and the option text of its
parameters. -/
def entryLines (id : String) (preset : Preset) : List String :=
  let below :=
    match preset.parameters with
    | .ok p => p.toText
    | .error e => "(invalid: " ++ e.message ++ ")"
  ["  " ++ Text.padRight 14 id ++ " - " ++ preset.description.getD "",
    "  " ++ Text.padRight 14 "" ++ "   " ++ below]

/-- The catalogue of the factory presets, in the order in which they are kept. -/
def catalogue : List String :=
  ["Factory Presets:", "================"]
    ++ factory.flatMap (fun (id, preset) => entryLines id preset)
    ++ [""]

/-- Numbers in a row, as they are spelled in an option text, with commas between them. -/
def numbers (xs : List Float) : String :=
  String.intercalate ", " (xs.map Decimal.plain)

/-- A line for a point: its input level and the output level that belongs to it. -/
def pointLine (p : Point Float) : String :=
  let text (level : Float) : String := Text.padLeft 8 (Decimal.fixed 2 level)
  "  " ++ text p.input ++ " dB -> " ++ text p.output ++ " dB"

/-- The lines for a preset and its parameters: one for each option, one for each point, and
the option text at the end. -/
def sheet (preset : Preset) (p : Parameters) : List String :=
  ["Preset: " ++ preset.name,
    String.ofList (List.replicate (8 + preset.name.utf8ByteSize) '='),
    ""]
    ++ (preset.description.map fun text => ["Description: " ++ text, ""]).getD []
    ++ ["Attacks:     " ++ numbers p.attacks ++ " s",
      "Decays:      " ++ numbers p.decays ++ " s",
      "Points:"]
    ++ p.points.map pointLine
    ++ ["Soft knee:   " ++ Decimal.plain p.softKnee ++ " dB",
      "Gain:        " ++ Decimal.plain p.gain ++ " dB",
      "Volume:      " ++ Decimal.plain p.volume ++ " dB",
      "Delay:       " ++ Decimal.plain p.delay ++ " s",
      "",
      "Option string:",
      "  " ++ p.toText]

end Compander.Preset
