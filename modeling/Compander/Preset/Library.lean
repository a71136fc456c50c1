import Compander.Files
import Compander.Preset.Document
import Compander.Preset.Factory

/-!
# Presets in files

* `Preset.load`, `Preset.save` — presets as documents in files;
* `Preset.find` — a preset by one word: a factory preset or the path of a file;
* `Preset.resolve` — the parameters of a preset, with the errors of this module;
* `PresetError` — what can go wrong on the way, with its wording and its causes.

A factory preset is found before a file of the same name, and a file is only read
if there is one, so a word that is neither is told apart from a file that cannot
be read.

Folders that the path of a preset asks for are made before it is written. What is read
is not resolved at once: a preset with wrong values can be loaded, and is refused only
when its parameters are needed.
-/

namespace Compander

/-- Why a preset is not at hand, or could not be put into a file. -/
inductive PresetError where
  /-- its options do not read, or do not fit together -/
  | options (error : OptionError)
  /-- the document is not TOML, or not that of a preset -/
  | malformed
  /-- there is neither a factory preset nor a file of the name -/
  | notFound (name : String)
  /-- the file cannot be read -/
  | unreadable (path : String) (fault : FileFault)
  /-- the file cannot be written -/
  | unwritable (path : String) (fault : FileFault)
  /-- the folder of the file cannot be made -/
  | noFolder (path : String) (fault : FileFault)

namespace PresetError

/-- The wording of an error, with the path that it is about if it is about one. -/
def message : PresetError → String
  | options error => error.message
  | malformed => "failed to parse TOML: not the document of a preset"
  | notFound name => "preset not found: " ++ name
  | unreadable path fault => "failed to read file '" ++ path ++ "': " ++ fault.message
  | unwritable path fault => "failed to write file '" ++ path ++ "': " ++ fault.message
  | noFolder path fault =>
    "failed to create directory '" ++ path ++ "': " ++ fault.message

/-- The causes of an error, the nearest first, as they are listed below its message. -/
def causes : PresetError → List String
  | options _ => []
  | malformed => ["not the document of a preset"]
  | notFound _ => []
  | unreadable _ fault => [fault.message]
  | unwritable _ fault => [fault.message]
  | noFolder _ fault => [fault.message]

end PresetError

namespace Preset

variable {m : Type → Type} [Monad m] [Files m]

/-- The preset of a document, or the error that the text is not one. -/
def ofDocument (text : String) : Except PresetError Preset :=
  match ofDocument? text with
  | some preset => .ok preset
  | none => .error .malformed

/-- The parameters of a preset that is at hand, which the values in it may still prevent. -/
def resolve (preset : Preset) : Except PresetError Parameters :=
  preset.parameters.mapError .options

/-- The preset in a file, read as text and then as a document. -/
def load (path : String) : m (Except PresetError Preset) := do
  match ← Files.readText path with
  | .ok text => return ofDocument text
  | .error fault => return .error (.unreadable path fault)

/-- Puts a preset into a file, in place of what was there. A folder for it is made if there is
none, along with those around it. -/
def save (preset : Preset) (path : String) : m (Except PresetError Unit) := do
  let parent := (Files.parent? path).getD ""
  let made ←
    if parent = "" then pure (.ok ())
    else if ← Files.isPresent parent then pure (.ok ())
    else Files.makeFolders parent
  match made with
  | .error fault => return .error (.noFolder parent fault)
  | .ok () =>
    return (← Files.writeText path preset.toDocument).mapError (.unwritable path)

/-- The factory preset of a name or, if there is none, the preset in the file of that path. -/
def find (name : String) : m (Except PresetError Preset) := do
  match factory? name with
  | some preset => return .ok preset
  | none =>
    if ← Files.isFile name then load name
    else return .error (.notFound name)

end Preset

end Compander
