import Compander.Parameters.OptionText

/-!
# Presets

A preset is a named setup: an option text, and values of its own for some of the
options, which stand above those of the text. `Preset.parameters` resolves it.

The lists among these values are texts, spelled as in an option text, and can be
wrong in the same ways. The numbers are numbers. Above the preset there may be
options that a user gives beside it (`Compander.Command`), which are set and
checked in the same manner: after each layer the parameters so far have to pass
their check before the next layer is set above them.

A field that is not set leaves its option to the layers below, and an option that no
layer sets has its default. Name and description are for people and play no part in
this.
-/

namespace Compander

/-- A named setup of a compander. Only the name has to be there; a preset of nothing else
stands for the defaults. -/
structure Preset where
  /-- what it is called -/
  name : String
  /-- what it is for -/
  description : Option String := none
  /-- an option text that everything else builds on -/
  options : String := ""
  /-- the attack times, as in an option text -/
  attacks : Option String := none
  /-- the decay times, as in an option text -/
  decays : Option String := none
  /-- the points, as in an option text -/
  points : Option String := none
  /-- the knee radius in dB -/
  softKnee : Option Float := none
  /-- the output gain in dB -/
  gain : Option Float := none
  /-- the initial volume in dB -/
  volume : Option Float := none
  /-- the lookahead in seconds -/
  delay : Option Float := none
  deriving BEq, Repr

/-- The parameters with some options set from their texts, in order. An option without a text
stays as it is, and the first text that does not read ends it. -/
def Parameters.setEach (p : Parameters) :
    List (Setting × Option String) → Except OptionError Parameters
  | [] => .ok p
  | (_, none) :: rest => p.setEach rest
  | (setting, some text) :: rest => do
    (← p.setAs setting setting.name text.toList).setEach rest

namespace Preset

/-- A preset that holds parameters as an option text, and has no values of its own besides. -/
def ofParameters (name : String) (p : Parameters) : Preset :=
  { name, options := p.toText }

/-- The lists that a preset sets as texts, in the order in which they are read. -/
def texts (preset : Preset) : List (Setting × Option String) :=
  [(.attacks, preset.attacks), (.decays, preset.decays), (.points, preset.points)]

/-- The parameters with the numbers that a preset sets, and with their own where it sets
none. -/
def setNumbers (preset : Preset) (p : Parameters) : Parameters :=
  { p with
    softKnee := preset.softKnee.getD p.softKnee
    gain := preset.gain.getD p.gain
    volume := preset.volume.getD p.volume
    delay := preset.delay.getD p.delay }

/-- The parameters that a preset stands for. The option text has to pass the check on its own,
before anything is set above it; what comes of it all is checked again. -/
def parameters (preset : Preset) : Except OptionError Parameters := do
  let base ← Parameters.ofText preset.options
  (preset.setNumbers (← base.setEach preset.texts)).checked

end Preset

end Compander
