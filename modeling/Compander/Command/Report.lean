import Compander.Preset.Library
import Compander.Session
import Compander.Wave.Reader

/-!
# Reports

What a command leaves behind: the lines that it said, and the trouble it ran into,
if any. A `Run` is a program that says lines, may end in trouble, and works on the
files of a monad `m`.

* `Run.say` — one more line, which stays said whatever comes after it;
* `Run.orTrouble`, `Run.call` — steps that may fail, each with what its errors are
  worded as;
* `Run.report` — running a program to its end.

Trouble has a message and the causes below it, since an error that wraps another
one is of little use alone. The errors of each module become trouble here, and
nowhere else.
-/

namespace Compander.Command

/-- What went wrong, and why: the message, and what is behind it. -/
structure Trouble where
  /-- what went wrong -/
  message : String
  /-- why, the nearest cause first -/
  causes : List String := []
  deriving DecidableEq, Repr

namespace Trouble

/-- A text with its lines after the first one moved in. -/
def moveIn (indentation : String) (text : String) : String :=
  String.intercalate ("\n" ++ indentation)
    ((Text.splitOn '\n' text.toList).map String.ofList)

/-- The causes of trouble, a line for each. They are numbered if there are more
than one. -/
def causeLines : List String → List String
  | [cause] => ["    " ++ moveIn "    " cause]
  | causes => causes.mapIdx fun i cause =>
      Text.padLeft 5 (toString i) ++ ": " ++ moveIn "       " cause

/-- The wording of trouble, with a paragraph for its causes if it has any. -/
def render (t : Trouble) : String :=
  let causes :=
    if t.causes.isEmpty then ""
    else "\n\nCaused by:\n" ++ String.intercalate "\n" (causeLines t.causes)
  "Error: " ++ t.message ++ causes ++ "\n"

/-- Trouble with the options of a compander, which has no cause but itself. -/
def ofOptions (e : OptionError) : Trouble :=
  { message := e.message }

/-- Trouble with a preset, with the causes that its error has. -/
def ofPreset (e : PresetError) : Trouble :=
  { message := e.message, causes := e.causes }

/-- Trouble with a preset that was asked for by name, with the error as its cause. -/
def ofMissingPreset (name : String) (e : PresetError) : Trouble where
  message := "no preset '" ++ name ++ "'; 'compand presets list' shows the factory presets"
  causes := e.message :: e.causes

/-- Trouble with audio: files that do not read, and streams that do not go on. -/
def ofAudio (e : AudioError) : Trouble :=
  { message := e.message, causes := e.causes }

/-- Trouble with a stream, be it an error of the data or a fault of the program. -/
def ofRefusal : Refusal → Trouble
  | .error e => ofAudio (.stream e)
  | .fault f => { message := f.message }

end Trouble

/-- What a command leaves behind: all that it said, and how it ended. -/
structure Report where
  /-- what it said -/
  said : String
  /-- what it ran into -/
  trouble : Option Trouble
  deriving DecidableEq, Repr

/-- A program that says lines and may end in trouble, on top of a monad of files. -/
abbrev Run (m : Type → Type) := ExceptT Trouble (StateT String m)

namespace Run

variable {m : Type → Type} [Monad m] {α ε : Type}

/-- Says a line, below those that have been said before. -/
def say (line : String) : Run m Unit :=
  modify (· ++ line ++ "\n")

/-- Goes on with a result, or ends in the trouble of an error. -/
def orTrouble (trouble : ε → Trouble) (result : Except ε α) : Run m α :=
  match result with
  | .ok x => return x
  | .error e => throw (trouble e)

/-- Goes on with the result of a program, or ends in the trouble of its error. -/
def call (trouble : ε → Trouble) (program : m (Except ε α)) : Run m α := do
  orTrouble trouble (← program)

/-- Runs a program for its report, from nothing said to the end or to trouble. -/
def report (program : Run m Unit) : m Report := do
  let (result, said) ← StateT.run (ExceptT.run program) ""
  return ⟨said, match result with | .ok () => none | .error trouble => some trouble⟩

end Run

end Compander.Command
