import Compander.Parameters.OptionText

/-!
# Commands

What the command line can be asked to do, as values.

* `Command` — a command with everything that it was given;
* `Selection` — the parameters that most commands are given: a preset, an option
  text or the defaults, and values for single options above them;
* `Levels` — the levels at which a curve is shown.

A command is a value so that reading the words of a command line
(`Compander.Command.Reading`) and carrying it out (`Compander.Command.Running`)
have nothing to do with each other. What is wrong with the words never becomes a
command, and what is wrong with the files or the parameters is found only when one
is run.
-/

namespace Compander

/-- Where the parameters of a command begin, before any single option is set. -/
inductive Base where
  /-- with a preset, by its name or its file -/
  | preset (name : String)
  /-- with an option text -/
  | options (text : String)
  /-- with the defaults -/
  | defaults
  deriving DecidableEq, Repr

/-- The parameters that a command is given: a base, and texts for single options
above it. -/
structure Selection where
  /-- what the parameters begin with -/
  base : Base
  /-- the texts of the options that are set on their own -/
  overrides : List (Setting × Option String)
  deriving DecidableEq, Repr

/-- The levels at which a curve is shown, in dB, equally far from each other. -/
structure Levels where
  /-- the lowest level -/
  low : Float
  /-- the level not to go beyond -/
  high : Float
  /-- from each level to the next -/
  step : Float
  deriving Repr

/-- A command, with the options and operands that it was given, their defaults filled in. -/
inductive Command where
  /-- says which version this is -/
  | version
  /-- says how the program is used -/
  | usage
  /-- runs a file through a compander, in blocks, to a file of a depth -/
  | process (input output : String) (selection : Selection) (blockSize bits : Nat)
  /-- shows the transfer curve -/
  | curve (selection : Selection) (levels : Levels) (json : Bool)
  /-- lists the factory presets -/
  | listPresets
  /-- shows a preset -/
  | showPreset (name : String)
  /-- puts parameters into a preset file -/
  | savePreset (path name : String) (description : Option String) (force : Bool)
      (selection : Selection)
  /-- describes a file -/
  | info (path : String) (delay : Option Float) (json : Bool)
  deriving Repr

end Compander
