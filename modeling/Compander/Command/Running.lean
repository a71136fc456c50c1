import Compander.Command.Catalogue
import Compander.Command.Report
import Compander.Command.Tables
import Compander.Session

/-!
# Running commands

`Command.run` carries out a command on the files of a monad and reports. Each command is a
program that says lines and ends in trouble as soon as something does not do; what it was
given is checked in the order in which it is used.

* `Selection.resolve` — the parameters that were asked for, by preset, text and overrides;
* `Command.processFile` — the planes of a file through a compander, to another file;
* `Command.sayCurve`, `Command.sayPreset`, `Command.sayInfo` — what is to be shown;
* `Command.writePreset` — parameters put into a preset file;
* `Command.perform` — any of the commands.

The command that processes a file cuts the planes into blocks by a loop of its own
(`Command.pushFrom`), since it shows how far it has got.
-/

namespace Compander

open Command (Run Trouble Report)
open Command.Run

variable {m : Type → Type} [Monad m] [Files m]

namespace Selection

/-- The parameters with the overrides of a selection set, in the order of the options, and
then checked as a whole. -/
def overlay (s : Selection) (p : Parameters) : Except OptionError Parameters := do
  (← p.setEach s.overrides).checked

/-- The preset of a name or in a file; trouble that there is none names what was asked for. -/
def findPreset (name : String) : Run m Preset :=
  call (Trouble.ofMissingPreset name) (Preset.find name)

/-- The parameters that a base stands for, which have passed their check already. The defaults
need none. -/
def resolveBase : Base → Run m Parameters
  | .preset name => do orTrouble Trouble.ofOptions (← findPreset name).parameters
  | .options text => orTrouble Trouble.ofOptions (Parameters.ofText text)
  | .defaults => return {}

/-- The parameters that a selection stands for: those of its base, with its overrides above
them. -/
def resolve (s : Selection) : Run m Parameters := do
  orTrouble Trouble.ofOptions (s.overlay (← resolveBase s.base))

end Selection

namespace Command

/-- Says some lines, one after another, in the order of the list. -/
def sayAll (lines : List String) : Run m Unit :=
  lines.forM fun line => say line

/-- Ends in trouble without a cause, for what a command refuses itself. -/
def give {α : Type} (message : String) : Run m α :=
  throw { message }

/-- The version of the program, under the name that the program has. -/
def versionLine : String := "compand 0.1.0"

/-- How the program is used, a line for each form of the command line. -/
def usageLines : List String :=
  ["Dynamic range compander CLI",
    "",
    "Usage: compand <COMMAND>",
    "",
    "  process <INPUT> <OUTPUT> [--block-size N] [--bit-depth 16|24|32] [SETTINGS]",
    "  curve [--from DB] [--to DB] [--step DB] [--json] [SETTINGS]",
    "  presets list",
    "  presets show <NAME>",
    "  presets save <PATH> --name NAME [--description TEXT] [--force] [SETTINGS]",
    "  info <FILE> [--delay SECONDS] [--json]",
    "",
    "Settings: --preset NAME or --options TEXT, then --attacks, --decays, --points,",
    "  --soft-knee, --gain, --volume, --delay"]

/-- What planes hold from one sample up to another, stamped with the place of the first. -/
def slice (planes : List (Array Float32)) (start stop : Nat) : Buffer Float32 :=
  ⟨planes.map fun plane => (plane.extract start stop).toList, some start⟩

/-- Pushes what planes of a length hold from a sample on, block after block, until their end. A
block begins where the one before it stopped, and it stops after as many samples as a block has,
or with the planes. Blocks that have no size would get nowhere; the command refuses them. -/
def pushFrom (planes : List (Array Float32)) (frames blockSize start : Nat) (s : Session)
    (tape : Tape) : Except Refusal (Session × Tape) :=
  if start < frames ∧ 0 < blockSize then
    let stop := min (start + blockSize) frames
    match s.push tape (slice planes start stop) with
    | (.error refusal, _, _) => .error refusal
    | (.ok _, s, tape) => pushFrom planes frames blockSize stop s tape
  else .ok (s, tape)
termination_by frames - start

/-- The planes of a file through a session, in blocks of a size, and drained at the end. -/
def renderFile (s : Session) (planes : List (List Float32)) (blockSize : Nat) :
    Except Refusal Tape := do
  let (s, tape) ← pushFrom (planes.map List.toArray) (Session.frames planes) blockSize 0 s
    (Tape.blank planes.length)
  match s.finish tape with
  | (.error refusal, _, _) => .error refusal
  | (.ok _, _, tape) => .ok tape

/-- Runs the planes of a file through a compander to another file. The parameters are resolved
first, and the file is written last, so nothing is written unless everything else has gone
well. -/
def processFile [Memory] (input output : String) (selection : Selection)
    (blockSize bits : Nat) : Run m Unit := do
  let p ← selection.resolve
  if blockSize = 0 then give "--block-size must be at least 1"
  if bits ∉ [16, 24, 32] then
    give s!"Unsupported bit depth {bits} (use 16, 24, or 32)"
  say s!"Reading {input}..."
  let source ← call Trouble.ofAudio (Wave.load input)
  let channels := source.planes.length
  let frames := Session.frames source.planes
  let rate := source.shape.rate
  let seconds := Float.ofNat frames / Float.ofNat rate
  say (s!"  {channels} channel(s), {frames} frames, {rate} Hz, "
    ++ Decimal.fixed 2 seconds ++ "s")
  say ("Settings: " ++ p.toText)
  let session ← orTrouble (Trouble.ofAudio ∘ .stream) (Session.start p (.perSample channels rate))
  if session.device.latency ≠ 0 then
    say s!"  lookahead {session.device.latency} samples"
  let planes := (← orTrouble Trouble.ofRefusal (renderFile session source.planes blockSize)).planes
  say "\nStats:"
  say ("  Input:  " ++ Loudness.sentence source.planes.flatten)
  say ("  Output: " ++ Loudness.sentence planes.flatten)
  say s!"\nWriting {output}..."
  call Trouble.ofAudio (Wave.save output planes { source.shape with bits })
  say "Done!"

/-- Shows a curve at some levels, as a table or as JSON. A step that would get nowhere is
refused. -/
def sayCurve [Memory] (selection : Selection) (levels : Levels) (json : Bool) : Run m Unit := do
  if !(0.0 < levels.step && levels.step.isFinite) then
    give "--step must be a positive number of dB"
  if levels.high < levels.low then
    give ("--to (" ++ Decimal.plain levels.high ++ ") is below --from ("
      ++ Decimal.plain levels.low ++ ")")
  let p ← selection.resolve
  let drawn : Except SetupError (Transfer Float32) := Transfer.draw p.points p.softKnee p.gain
  let curve ← orTrouble (Trouble.ofOptions ∘ .setup) drawn
  if json then say (curve.json levels).render else sayAll (curve.lines levels)

/-- Shows a preset, if it is one whose parameters can be resolved. -/
def sayPreset (name : String) : Run m Unit := do
  let preset ← Selection.findPreset name
  sayAll (preset.sheet (← orTrouble Trouble.ofOptions preset.parameters))

/-- Puts parameters into a preset file, as one option text. A file that is there is not
replaced unless that is asked for. -/
def writePreset (path name : String) (description : Option String) (force : Bool)
    (selection : Selection) : Run m Unit := do
  let isPresent : Bool ← ((Files.isPresent path : m Bool) : StateT String m Bool)
  if isPresent && !force then
    give s!"{path} already exists. Use --force to overwrite."
  let preset := { Preset.ofParameters name (← selection.resolve) with description }
  call Trouble.ofPreset (preset.save path)
  say s!"Saved preset '{name}' to {path}"

/-- Describes a file: what its header says, how loud it is, and how long a lookahead is in
it. -/
def sayInfo (path : String) (delay : Option Float) (json : Bool) : Run m Unit := do
  if delay.any fun seconds => !Parameters.isTime seconds then
    give "--delay must be a non-negative number of seconds"
  let summary ← call Trouble.ofAudio (Wave.loadSummary path)
  let recording ← call Trouble.ofAudio (Wave.load path)
  let sheet : Wave.Sheet := ⟨summary, recording.planes, delay⟩
  if json then say sheet.json.render else sayAll (sheet.lines path)

/-- Carries out a command, saying what there is to say on the way. -/
def perform [Memory] : Command → Run m Unit
  | version => say versionLine
  | usage => sayAll usageLines
  | .process input output selection blockSize bits =>
    processFile input output selection blockSize bits
  | curve selection levels json => sayCurve selection levels json
  | listPresets => sayAll Preset.catalogue
  | .showPreset name => sayPreset name
  | .savePreset path name description force selection =>
    writePreset path name description force selection
  | info path delay json => sayInfo path delay json

/-- The report of a command, with the trouble it ended in if it did. -/
def run [Memory] (command : Command) : m Report :=
  (perform command).report

end Command

end Compander
