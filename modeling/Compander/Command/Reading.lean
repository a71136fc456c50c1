import Compander.Command
import Compander.Command.Words

/-!
# Reading command lines

`Command.ofWords?` reads the words of a command line to a command. The first word
names the command, and for presets the second one too; the others are sorted by
the grammar of the command.

* `Selection.valued`, `Selection.ofWords?` — the options that select parameters,
  which several commands share;
* one grammar for each command, and how the sorted words become that command;
* `Command.helpWith?`, `Command.asksUsage`, `Command.asksVersion` — words that ask
  for help or for the version rather than for anything to be done.

Words that do not make a command are refused without a reason. Texts of options
are only looked at as far as the grammar asks for; whether they read is found when
the command is run.
-/

namespace Compander

namespace Selection

/-- The options that select parameters, each of them with a value that the command reads
later. -/
def valued : List Command.Valued :=
  [{ name := "preset", letter := some 'p' }, { name := "options", letter := some 'o' }]
    ++ Setting.all.map fun s =>
      { name := s.name, hyphens := s ∈ [.points, .softKnee, .gain, .volume] }

/-- The selection that some words make. A preset and an option text exclude each
other. -/
def ofWords? (w : Command.Words) : Option Selection := do
  let base ←
    match w.value? "preset", w.value? "options" with
    | some name, none => some (Base.preset name)
    | none, some text => some (Base.options text)
    | none, none => some Base.defaults
    | some _, some _ => none
  return ⟨base, Setting.all.map fun s => (s, w.value? s.name)⟩

end Selection

namespace Command

/-! ## The grammars -/

/-- Words for processing a file: two paths, the selection, and how it is cut and written. -/
def processGrammar : Grammar where
  operands := [.path, .path]
  valued := Selection.valued
    ++ [{ name := "block-size", kind := .size }, { name := "bit-depth", kind := .depth }]

/-- Words for showing a curve: the selection and the levels to show it at. -/
def curveGrammar : Grammar where
  valued := Selection.valued
    ++ [{ name := "from", kind := .number, hyphens := true },
      { name := "to", kind := .number, hyphens := true },
      { name := "step", kind := .number }]
  flags := ["json"]

/-- Words for showing a preset: its name, or the path of a file that holds it. -/
def showGrammar : Grammar where
  operands := [.text]

/-- Words for putting parameters into a preset file: its path, what the preset is called, and
the selection. -/
def saveGrammar : Grammar where
  operands := [.path]
  valued := Selection.valued
    ++ [{ name := "name", letter := some 'n' }, { name := "description", letter := some 'd' }]
  flags := ["force"]

/-- Words for describing a file: its path, and a lookahead to be counted in its samples. -/
def infoGrammar : Grammar where
  operands := [.path]
  valued := [{ name := "delay", kind := .number }]
  flags := ["json"]

/-! ## Commands of words -/

/-- Processing a file, with a block size and a depth unless others are given. -/
def processOf? (w : Words) : Option Command := do
  let selection ← Selection.ofWords? w
  let [input, output] := w.operands | none
  return .process input output selection
    (((w.value? "block-size").bind size?).getD 1024)
    (((w.value? "bit-depth").bind depth?).getD 32)

/-- Showing a curve, over the usual range of levels unless another one is given. -/
def curveOf? (w : Words) : Option Command := do
  let selection ← Selection.ofWords? w
  let level (name : String) (default : Float) : Float :=
    ((w.value? name).bind number?).getD default
  return .curve selection ⟨level "from" (-90.0), level "to" 0.0, level "step" 5.0⟩
    (w.has "json")

/-- Showing a preset, the one operand being what it is called. -/
def showOf? (w : Words) : Option Command := do
  let [name] := w.operands | none
  return .showPreset name

/-- Putting parameters into a preset file. It has to have a name, but need not have a
description. -/
def saveOf? (w : Words) : Option Command := do
  let selection ← Selection.ofWords? w
  let [path] := w.operands | none
  return .savePreset path (← w.value? "name") (w.value? "description") (w.has "force") selection

/-- Describing a file, with a lookahead in seconds if one is given. -/
def infoOf? (w : Words) : Option Command := do
  let [path] := w.operands | none
  return .info path ((w.value? "delay").bind number?) (w.has "json")

/-- The command that words come to, or the usage if they ask for that instead. -/
def read? (g : Grammar) (of : Words → Option Command) (words : List String) : Option Command :=
  match scan g {} words with
  | .words w => of w
  | .usage => some .usage
  | .refused => none

/-- Whether a word asks how a command is used, in its long or its short form. -/
def asksUsage (word : String) : Bool :=
  match wordOf word.toList with
  | .long "help" none => true
  | .short 'h' _ => true
  | _ => false

/-- Whether a word asks which version this is, in its long or its short form. -/
def asksVersion (word : String) : Bool :=
  match wordOf word.toList with
  | .long "version" none => true
  | .short 'V' _ => true
  | _ => false

/-- Help with one of some commands, if it is asked for by name. -/
def helpWith? (names : List String) : List String → Option Command
  | [] => some .usage
  | [name] => if name = "help" ∨ name ∈ names then some .usage else none
  | _ => none

/-- The commands for presets, which are the words that may follow `presets`. -/
def presetCommands : List String :=
  ["list", "show", "save"]

/-- The command of the words after `presets`, of which there is at least one. -/
def presetsOf? : List String → Option Command
  | [] => none
  | "list" :: rest => read? {} (fun _ => some .listPresets) rest
  | "show" :: rest => read? showGrammar showOf? rest
  | "save" :: rest => read? saveGrammar saveOf? rest
  | "help" :: rest => helpWith? presetCommands rest
  | word :: _ => if asksUsage word then some .usage else none

/-- The command of some words; none if they are refused. -/
def ofWords? : List String → Option Command
  | [] => none
  | "process" :: rest => read? processGrammar processOf? rest
  | "curve" :: rest => read? curveGrammar curveOf? rest
  | "presets" :: rest => presetsOf? rest
  | "info" :: rest => read? infoGrammar infoOf? rest
  | "help" :: "presets" :: rest => helpWith? presetCommands rest
  | "help" :: rest => helpWith? ["process", "curve", "info"] rest
  | word :: _ =>
    if asksVersion word then some .version
    else if asksUsage word then some .usage
    else none

end Command

end Compander
