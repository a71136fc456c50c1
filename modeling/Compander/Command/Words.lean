import Compander.Decimal.Reader
import Compander.Text.Blank

/-!
# The words of a command line

The words after a command are options and operands. An option is written
`--name value` or `--name=value`, one with a letter also `-l value`, `-l=value` or
`-lvalue`; a flag is an option without a value. After the word `--` all words are
operands. `scan` sorts words by a `Grammar`, which says what a command admits;
words that do not fit it are refused.

A grammar is a value, so each command says what it admits in one place, and what a
word means is settled without a look at the other words, but for the value that may
follow an option. Values are not read here. They stay words until a command asks for
a number or a path, and only then can they be wrong.
-/

namespace Compander.Command

/-- What the text of a value has to be. -/
inductive Kind where
  /-- any text -/
  | text
  /-- a path, which is not empty -/
  | path
  /-- a number -/
  | number
  /-- a whole number of 64 bits, without a minus sign -/
  | size
  /-- a whole number of 16 bits -/
  | depth
  deriving DecidableEq, Repr

/-- The whole number of a text that is a size: it has 64 bits, and no minus sign, not even
before a zero. -/
def size? (text : String) : Option Nat :=
  if text.toList.head? = some '-' then none
  else (Decimal.wholeNumber? text.toList).bind fun n =>
    if n < 0x10000000000000000 then some n.toNat else none

/-- The whole number of a text that is a depth, of 16 bits. Whether samples can be written at
it is found later. -/
def depth? (text : String) : Option Nat :=
  (Decimal.wholeNumber? text.toList).bind fun n =>
    if 0 ≤ n ∧ n < 0x10000 then some n.toNat else none

/-- The number of a text, if the text is nothing but a number. -/
def number? (text : String) : Option Float :=
  Decimal.read? text.toList

/-- Whether a text is of a kind, so that the command can rely on it. -/
def Kind.admits (kind : Kind) (text : String) : Bool :=
  match kind with
  | .text => true
  | .path => text ≠ ""
  | .number => (number? text).isSome
  | .size => (size? text).isSome
  | .depth => (depth? text).isSome

/-- An option with a value, by its name and perhaps a letter. -/
structure Valued where
  /-- the name after two hyphens -/
  name : String
  /-- the letter after one hyphen -/
  letter : Option Char := none
  /-- what the value has to be -/
  kind : Kind := .text
  /-- whether a value in a word of its own may begin with a hyphen -/
  hyphens : Bool := false
  deriving DecidableEq, Repr

/-- What a command admits: how many operands of which kinds, and which options and flags. -/
structure Grammar where
  /-- the kinds of the operands, all of which have to be given -/
  operands : List Kind := []
  /-- the options with a value -/
  valued : List Valued := []
  /-- the flags -/
  flags : List String := []
  deriving DecidableEq, Repr

/-- Words, sorted into operands, options with values, and flags. -/
structure Words where
  /-- the operands in order -/
  operands : List String := []
  /-- the values of options, the latest first -/
  values : List (String × String) := []
  /-- the flags, the latest first -/
  flags : List String := []
  deriving DecidableEq, Repr

namespace Words

/-- The value of an option, if it has been given one. -/
def value? (w : Words) (name : String) : Option String :=
  w.values.lookup name

/-- Whether a flag is given; how often it is does not come up, since twice is refused. -/
def has (w : Words) (flag : String) : Bool :=
  w.flags.contains flag

/-- The words with one more operand, if another one of its kind is due. -/
def addOperand? (g : Grammar) (w : Words) (word : String) : Option Words :=
  match g.operands[w.operands.length]? with
  | some kind => if kind.admits word then some { w with operands := w.operands ++ [word] } else none
  | none => none

/-- The words with the value of an option, which must not be given twice. -/
def addValue? (w : Words) (option : Valued) (value : String) : Option Words :=
  if (w.value? option.name).isNone && option.kind.admits value then
    some { w with values := (option.name, value) :: w.values }
  else none

/-- The words with a flag, which must not be given twice. -/
def addFlag? (w : Words) (flag : String) : Option Words :=
  if w.has flag then none else some { w with flags := flag :: w.flags }

end Words

/-- How a word begins, which says what kind of word it is. -/
inductive Word where
  /-- nothing but two hyphens -/
  | stop
  /-- the name of an option, and a value after an equals sign -/
  | long (name : String) (value : Option String)
  /-- the letter of an option, and what follows it -/
  | short (letter : Char) (rest : List Char)
  /-- neither of these -/
  | plain
  deriving DecidableEq, Repr

/-- How some characters begin, without regard to which options there are. -/
def wordOf : List Char → Word
  | ['-', '-'] => .stop
  | '-' :: '-' :: rest =>
    match Text.splitOnce? '=' rest with
    | some (name, value) => .long (String.ofList name) (some (String.ofList value))
    | none => .long (String.ofList rest) none
  | '-' :: letter :: rest => .short letter rest
  | _ => .plain

/-- Whether a word may be the value of an option before it. -/
def Valued.takes (option : Valued) (word : String) : Bool :=
  option.hyphens || wordOf word.toList = .plain

/-- The value that is written after a letter in the same word. -/
def attached : List Char → Option String
  | [] => none
  | '=' :: value => some (String.ofList value)
  | value => some (String.ofList value)

/-- What words come to: sorted words, a question for the usage, or nothing that fits. -/
inductive Scanned where
  /-- the words, sorted -/
  | words (words : Words)
  /-- they ask how the command is used -/
  | usage
  /-- they do not fit -/
  | refused
  deriving DecidableEq, Repr

/-- Adds operands one after another, as all words are after two bare hyphens. -/
def scanOperands (g : Grammar) (w : Words) : List String → Scanned
  | [] => .words w
  | word :: rest =>
    match w.addOperand? g word with
    | some w => scanOperands g w rest
    | none => .refused

/-- Sorts words by a grammar, after those that are sorted so far. -/
def scan (g : Grammar) (w : Words) : List String → Scanned
  | [] => .words w
  | word :: rest =>
    let next (found : Option Words) : Scanned :=
      match found with
      | some w => scan g w rest
      | none => .refused
    let valued (option : Valued) (value : Option String) : Scanned :=
      match value, rest with
      | some value, _ => next (w.addValue? option value)
      | none, value :: rest =>
        match if option.takes value then w.addValue? option value else none with
        | some w => scan g w rest
        | none => .refused
      | none, [] => .refused
    match wordOf word.toList with
    | .stop => scanOperands g w rest
    | .plain => next (w.addOperand? g word)
    | .long name value =>
      if name = "help" ∧ value = none then .usage
      else if g.flags.contains name ∧ value = none then next (w.addFlag? name)
      else
        match g.valued.find? (·.name = name) with
        | some option => valued option value
        | none => .refused
    | .short letter text =>
      if letter = 'h' then .usage
      else
        match g.valued.find? (·.letter = some letter) with
        | some option => valued option (attached text)
        | none => .refused

end Compander.Command
