import Compander.Decimal.Reader
import Compander.Parameters
import Compander.Text.Blank

/-!
# Option text

Parameters as one line of text: items separated by colons, each `name=value` or a
bare value. Bare values go to the options in the order of `Setting.all`. A value
that is a list has its elements separated by bars, and a point is two numbers with
a slash between them:

`attacks=0.02|0.05:decays=0.3|0.3:points=0/3|10/8|20/9:soft-knee=6:gain=3`

* `Parameters.set`, `Parameters.setInPlace` — one option from its text;
* `Parameters.ofText` — a whole line, over the defaults, checked;
* `Parameters.toText` — the line that reads back as the parameters.

An option may be set more than once, by name or by place, and then the last item
counts; but every item has to read, the ones that do not count included. A bare
value uses up its place even where the same option is named elsewhere.
-/

namespace Compander

open Text

/-- An option of the compander, one for each field of its parameters. -/
inductive Setting where
  /-- the attack times -/
  | attacks
  /-- the decay times -/
  | decays
  /-- the transfer function -/
  | points
  /-- the knee radius -/
  | softKnee
  /-- the output gain -/
  | gain
  /-- the initial volume -/
  | volume
  /-- the lookahead -/
  | delay
  deriving DecidableEq, Repr

namespace Setting

/-- The options in the order in which bare values go to them, and in which a line is
written. -/
def all : List Setting :=
  [attacks, decays, points, softKnee, gain, volume, delay]

/-- The name of an option, as it stands before the equals sign and in messages. -/
def name : Setting → String
  | attacks => "attacks"
  | decays => "decays"
  | points => "points"
  | softKnee => "soft-knee"
  | gain => "gain"
  | volume => "volume"
  | delay => "delay"

/-- The option of a name, spelled exactly as it is written. Only the knee has a second
spelling, with an underscore. -/
def ofName? (name : String) : Option Setting :=
  if name = "soft_knee" then some softKnee else all.find? (·.name = name)

end Setting

/-- What is wrong with the text of a value, before anything is known of the other options. -/
inductive ValueError where
  /-- a number was expected -/
  | notNumber (text : String)
  /-- a duration was expected -/
  | notTime (text : String)
  /-- two finite numbers with a slash between them were expected -/
  | badPoint
  /-- a point lies left of the one before -/
  | inputsDecrease

namespace ValueError

/-- The wording of an error. Those of points have the words that setting up a device would
have for them. -/
def message : ValueError → String
  | notNumber text => "'" ++ text ++ "' is not a number"
  | notTime text => "'" ++ text ++ "' is not a non-negative number of seconds"
  | badPoint => SetupError.reason .badPoint
  | inputsDecrease => SetupError.reason .inputsDecrease

end ValueError

/-- What is wrong with an option text: an item, its value, or what all the items make
together. -/
inductive OptionError where
  /-- there is no such option, or a bare value is left over -/
  | unknown (item : String)
  /-- a value of the option of that name does not read -/
  | badValue (option : String) (error : ValueError)
  /-- the values do not fit together -/
  | setup (error : SetupError)

namespace OptionError

/-- The wording of an error. That of a value begins with the option whose value it was meant
to be. -/
def message : OptionError → String
  | unknown item => "unknown option: " ++ item
  | badValue option error => "invalid value for '" ++ option ++ "': " ++ error.message
  | setup error => error.message

end OptionError

/-! ## Values -/

/-- The elements of a list, between its bars and without the blanks around them. An empty list
has one element, which is empty. -/
def elements (text : List Char) : List (List Char) :=
  (splitOn '|' text).map trim

/-- A number, blanks around it allowed. Spellings of infinity and of what is not a number do
read; ranges are checked later. -/
def readNumber (option : String) (text : List Char) : Except OptionError Float :=
  match Decimal.read? (trim text) with
  | some x => .ok x
  | none => .error (.badValue option (.notNumber (String.ofList text)))

/-- A duration in seconds: a number that is finite and not negative, whatever else it is
for. -/
def readTime (option : String) (text : List Char) : Except OptionError Float := do
  let seconds ← readNumber option text
  if Parameters.isTime seconds then return seconds
  else throw (.badValue option (.notTime (String.ofList text)))

/-- A list of durations, as long as the text has elements; the first that does not read is at
fault. -/
def readTimes (option : String) (text : List Char) : Except OptionError (List Float) :=
  (elements text).mapM (readTime option)

/-- A point: two finite numbers, with the first slash of the text between them. -/
def readPoint? (text : List Char) : Option (Point Float) := do
  let (input, output) ← splitOnce? '/' text
  let p : Point Float := ⟨← Decimal.read? (trim input), ← Decimal.read? (trim output)⟩
  if p.isFinite then return p else failure

/-- The points of some texts, none of them left of the one before, and the first not left of
`previous`. -/
def readPointsAfter (previous : Option Float) :
    List (List Char) → Except OptionError (List (Point Float))
  | [] => .ok []
  | text :: rest =>
    match readPoint? text with
    | none => .error (.badValue Setting.points.name .badPoint)
    | some p =>
      if previous.any (p.input < ·) then
        .error (.badValue Setting.points.name .inputsDecrease)
      else (readPointsAfter (some p.input) rest).map (p :: ·)

/-- A list of points, from left to right, with an error that does not say which of them was
wrong. -/
def readPoints (text : List Char) : Except OptionError (List (Point Float)) :=
  readPointsAfter none (elements text)

/-! ## Items -/

/-- An item of an option text, before it is known whether there is such an option. -/
inductive Item where
  /-- a name and its value -/
  | named (name value : List Char)
  /-- a value without a name -/
  | bare (value : List Char)
  deriving DecidableEq

/-- The items of an option text, in order and without the blanks around them. Empty ones do
not count; what has an equals sign is named by what stands before it. -/
def itemsOf (text : List Char) : List Item :=
  (((splitOn ':' text).map trim).filter (· ≠ [])).map fun item =>
    match splitOnce? '=' item with
    | some (name, value) => .named (trim name) (trim value)
    | none => .bare item

namespace Parameters

/-- The parameters with one option set from its text, under the name that it was given by,
which is the one that errors mention. -/
def setAs (p : Parameters) (setting : Setting) (name : String) (value : List Char) :
    Except OptionError Parameters :=
  match setting with
  | .attacks => (readTimes name value).map fun attacks => { p with attacks }
  | .decays => (readTimes name value).map fun decays => { p with decays }
  | .points => (readPoints value).map fun points => { p with points }
  | .softKnee => (readNumber name value).map fun softKnee => { p with softKnee }
  | .gain => (readNumber name value).map fun gain => { p with gain }
  | .volume => (readNumber name value).map fun volume => { p with volume }
  | .delay => (readNumber name value).map fun delay => { p with delay }

/-- The parameters with the option of a name set from its text; a name that no option has is
an error. -/
def set (p : Parameters) (name : String) (value : List Char) :
    Except OptionError Parameters :=
  match Setting.ofName? name with
  | some setting => p.setAs setting name value
  | none => .error (.unknown name)

/-- Sets the option of a name in the parameters at hand. They are replaced once the
text has been read, so an error leaves them as they are. -/
def setInPlace (name : String) (value : List Char) :
    ExceptT OptionError (StateM Parameters) Unit := do
  let p ← get
  let q ← p.set name value
  MonadStateOf.set q

/-- The parameters with some items set in order; `free` are the options that the next bare
values go to, which naming an option does not change. -/
def setItems (p : Parameters) : List Setting → List Item → Except OptionError Parameters
  | _, [] => .ok p
  | free, .named name value :: rest => do
    (← p.set (String.ofList name) value).setItems free rest
  | setting :: free, .bare value :: rest => do
    (← p.setAs setting setting.name value).setItems free rest
  | [], .bare value :: _ => .error (.unknown (String.ofList value))

/-- The parameters, if they pass their check, and otherwise what is wrong with them as an
error of the text. -/
def checked (p : Parameters) : Except OptionError Parameters :=
  match p.check with
  | .ok () => .ok p
  | .error error => .error (.setup error)

/-- The parameters of an option text: the defaults with its items set, checked as a whole once
all of them have been read. -/
def ofText (text : String) : Except OptionError Parameters := do
  (← ({} : Parameters).setItems Setting.all (itemsOf text.toList)).checked

/-! ## Writing -/

/-- A number as it is written in an option text: in plain decimals, as few as read back as the
same number. -/
def numberText (x : Float) : List Char :=
  (Decimal.plain x).toList

/-- A point as it is written in an option text, without blanks around its slash. -/
def pointText (p : Point Float) : List Char :=
  numberText p.input ++ '/' :: numberText p.output

/-- The value of an option as it is written: one number, or the elements of a list with bars
between them. -/
def valueText (p : Parameters) : Setting → List Char
  | .attacks => joinWith '|' (p.attacks.map numberText)
  | .decays => joinWith '|' (p.decays.map numberText)
  | .points => joinWith '|' (p.points.map pointText)
  | .softKnee => numberText p.softKnee
  | .gain => numberText p.gain
  | .volume => numberText p.volume
  | .delay => numberText p.delay

/-- The option text of some parameters: all options by name, those that have their defaults
included. -/
def toText (p : Parameters) : String :=
  String.ofList (joinWith ':' (Setting.all.map fun s =>
    s.name.toList ++ '=' :: p.valueText s))

end Parameters

end Compander
