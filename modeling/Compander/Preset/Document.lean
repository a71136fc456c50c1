import Compander.Decimal.Spelling
import Compander.Preset
import Compander.Toml.Document
import Compander.Toml.Quoted

/-!
# Preset documents

A preset as a TOML document: one line for each field that is set. Reading takes
any document that gives a name; what it gives besides the fields of a preset does
not matter.

* `Preset.toDocument` — the lines in a fixed order, the name first. Texts are
  quoted in whichever way suits them, and numbers are written so that they are
  read as numbers with a fraction;
* `Preset.ofDocument?` — the way back. A document in which a field has a value of
  another kind is not that of a preset, and neither is one without a name.

The options have no line of their own if there is nothing to say, apart from the
option text, which is written even where it is empty.
-/

namespace Compander.Preset

open Toml

/-! ## Writing -/

/-- The line of a field: the key, an equals sign between blanks, and the value as it is
spelled. -/
def line (key : String) (value : List Char) : List Char :=
  key.toList ++ (' ' :: '=' :: ' ' :: value) ++ ['\n']

/-- The line of a text field, quoted so that it reads back whatever is in the text. -/
def textLine (key : String) (text : String) : List Char :=
  line key (Quoted.quote text.toList)

/-- The line of a text field, if it is set, and nothing at all if it is not. -/
def textLine? (key : String) (text : Option String) : List Char :=
  (text.map (textLine key)).getD []

/-- The line of a number field, if it is set, and nothing at all if it is not. -/
def numberLine? (key : String) (number : Option Float) : List Char :=
  (number.map fun x => line key (Decimal.Spelling.document.ofDouble x).toList).getD []

/-- The document of a preset, a line for each field that is set, in the order of the
fields. -/
def toDocument (preset : Preset) : String :=
  String.ofList
    (textLine "name" preset.name ++ textLine? "description" preset.description
      ++ textLine "options" preset.options ++ textLine? "attacks" preset.attacks
      ++ textLine? "decays" preset.decays ++ textLine? "points" preset.points
      ++ numberLine? "soft_knee" preset.softKnee ++ numberLine? "gain" preset.gain
      ++ numberLine? "volume" preset.volume ++ numberLine? "delay" preset.delay)

/-! ## Reading -/

/-- A value that has to be a text, in whichever quotes it was written. -/
def asText? : Value → Option String
  | .text text => some text
  | _ => none

/-- A value that has to be a number. A whole number counts as the nearest double. -/
def asNumber? : Value → Option Float
  | .float x => some x
  | .integer n => some (Binary.ofInt n).toDouble
  | _ => none

/-- A field that need not be there, but if it is, has to be of its kind. -/
def field? {α : Type} (as : Value → Option α) (entries : Entries) (key : String) :
    Option (Option α) :=
  match entries.find? key with
  | none => some none
  | some value => (as value).map some

/-- The preset of the root table of a document. Fields that are not there are not set, apart
from the option text, which is then empty, and the name, without which there is no preset. -/
def ofEntries? (entries : Entries) : Option Preset := do
  return {
    name := ← field? asText? entries "name" |>.bind id
    description := ← field? asText? entries "description"
    options := (← field? asText? entries "options").getD ""
    attacks := ← field? asText? entries "attacks"
    decays := ← field? asText? entries "decays"
    points := ← field? asText? entries "points"
    softKnee := ← field? asNumber? entries "soft_knee"
    gain := ← field? asNumber? entries "gain"
    volume := ← field? asNumber? entries "volume"
    delay := ← field? asNumber? entries "delay" }

/-- The preset of a document, if the text is one and its root table is that of a preset. -/
def ofDocument? (text : String) : Option Preset := do
  ofEntries? (← Toml.read? text.toList)

end Compander.Preset
