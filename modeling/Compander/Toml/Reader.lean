import Compander.Toml.Quoted
import Compander.Toml.Scalar

/-!
# Reading TOML

A document is a sequence of statements, one to a line: headers between brackets,
and keys with values. `statements?` reads them; what they mean together is the
business of `Compander.Toml.Document`.

Values may be nested to a depth of `maxNesting`, and a dotted key may have as many
parts. Each reader takes what it reads from the beginning of a text and returns
what follows.

* `key?` — bare and quoted parts with dots between them;
* `value?` — scalars, quoted texts, arrays and tables between braces;
* `statement?` — a header or a key with its value, up to the end of the line.

Arrays and tables between braces may have any number of elements. The readers of
these recurse on a number that bounds it, and the length of the document always
does.
-/

namespace Compander.Toml

/-- A line of a document that is not empty. -/
inductive Statement where
  /-- the header of a table -/
  | table (path : List String)
  /-- the header of a further table of the same name -/
  | element (path : List String)
  /-- a key, after the keys of the tables it lies in, and its value -/
  | assign (path : List String) (key : String) (value : Value)

/-- How deep values may be nested, so that reading one ends within a bounded number of calls
inside each other. -/
def maxNesting : Nat := 79

namespace Reader

/-- Without spaces and tabs at the beginning; line ends are not among them. -/
def dropSpaces (text : List Char) : List Char :=
  text.dropWhile Quoted.isSpace

/-- Whether a character may stand in a comment, which control characters may not. -/
def inComment (c : Char) : Bool :=
  Quoted.isPlain c

/-- Without a comment at the beginning, up to what ends its line. -/
def dropComment : List Char → List Char
  | '#' :: rest => rest.dropWhile inComment
  | text => text

/-- What follows the end of a line: blanks, perhaps a comment, and then a line end
or the end of the document. -/
def endLine? (text : List Char) : Option (List Char) :=
  match dropComment (dropSpaces text) with
  | [] => some []
  | rest => Quoted.afterLineEnd? rest

theorem length_dropSpaces_le (text : List Char) : (dropSpaces text).length ≤ text.length :=
  (List.dropWhile_suffix _).length_le

theorem length_dropComment_le (text : List Char) :
    (dropComment text).length ≤ text.length := by
  fun_cases dropComment text with
  | case1 rest => exact Nat.le_succ_of_le (List.dropWhile_suffix _).length_le
  | case2 => exact Nat.le_refl _

theorem length_lt_of_afterLineEnd {text rest : List Char}
    (h : Quoted.afterLineEnd? text = some rest) : rest.length < text.length := by
  unfold Quoted.afterLineEnd? at h
  split at h
  · obtain rfl := Option.some.inj h
    simp only [List.length_cons]
    omega
  · obtain rfl := Option.some.inj h
    simp only [List.length_cons]
    omega
  · exact absurd h (by simp only [reduceCtorEq, not_false_eq_true])

/-- Without blanks, line ends and comments at the beginning, as they may stand inside
arrays. -/
def dropBlankLines (text : List Char) : List Char :=
  match _h : Quoted.afterLineEnd? (dropComment (dropSpaces text)) with
  | some rest => dropBlankLines rest
  | none => dropSpaces text
termination_by text.length
decreasing_by
  exact Nat.lt_of_lt_of_le (length_lt_of_afterLineEnd ‹_›)
    (Nat.le_trans (length_dropComment_le _) (length_dropSpaces_le _))

/-! ## Keys -/

/-- The characters of a key without quotes: ASCII letters and digits, hyphens and
underscores. -/
def isBare (c : Char) : Bool :=
  c.isAlphanum || c = '-' || c = '_'

/-- One part of a key, bare or quoted, and what follows it. -/
def keyPart? (text : List Char) : Option (String × List Char) :=
  match text with
  | c :: _ =>
    if c = '"' ∨ c = '\x27' then
      (Quoted.readInLine? text).map fun (s, rest) => (String.ofList s, rest)
    else if isBare c then some (String.ofList (text.takeWhile isBare), text.dropWhile isBare)
    else none
  | [] => none

/-- A key of at most `parts` parts with dots between them and blanks around. -/
def key? : Nat → List Char → Option (List String × List Char)
  | 0, _ => none
  | parts + 1, text => do
    let (part, rest) ← keyPart? (dropSpaces text)
    match dropSpaces rest with
    | '.' :: rest =>
      let (more, rest) ← key? parts rest
      return (part :: more, rest)
    | rest => return ([part], rest)

/-- A key split into the parts before the last, which are tables, and the last, which is what
has the value. -/
def splitKey? : List String → Option (List String × String)
  | [] => none
  | [key] => some ([], key)
  | part :: rest => (splitKey? rest).map fun (path, key) => (part :: path, key)

/-! ## Values -/

variable {α : Type}

/-- The rest of an array after its bracket: items with commas between them, the
last of which may have one as well. Line ends and comments may stand anywhere
between. -/
def items? (item : List Char → Option (α × List Char)) :
    Nat → List Char → Option (List α × List Char)
  | 0, _ => none
  | fuel + 1, text =>
    match dropBlankLines text with
    | ']' :: rest => some ([], rest)
    | text => do
      let (value, rest) ← item text
      match dropBlankLines rest with
      | ']' :: rest => return ([value], rest)
      | ',' :: rest =>
        let (more, rest) ← items? item fuel rest
        return (value :: more, rest)
      | _ => failure

/-- A key, an equals sign and a value, wherever such pairs stand. -/
def pair? (value : List Char → Option (α × List Char)) (text : List Char) :
    Option ((List String × String × α) × List Char) := do
  let (parts, rest) ← key? maxNesting text
  let (path, key) ← splitKey? parts
  match rest with
  | '=' :: rest =>
    let (v, rest) ← value (dropSpaces rest)
    return ((path, key, v), rest)
  | _ => failure

/-- Pairs with commas between them, up to a closing brace, all on one line. -/
def pairs? (value : List Char → Option (α × List Char)) :
    Nat → List Char → Option (List (List String × String × α) × List Char)
  | 0, _ => none
  | fuel + 1, text => do
    let (p, rest) ← pair? value text
    match dropSpaces rest with
    | '\x7d' :: rest => return ([p], rest)
    | ',' :: rest =>
      let (more, rest) ← pairs? value fuel rest
      return (p :: more, rest)
    | _ => failure

end Reader

/-! ## Adding to tables -/

namespace Entries

/-- The entries with a value at the end of a dotted key, if that may be added.
The tables on the way come about by the key, or did so before; a table between
that a header implied may be passed, but not end the way. -/
def assign? (entries : Entries) : List String → String → Value → Option Entries
  | [], key, value =>
    match entries.find? key with
    | some _ => none
    | none => some (entries.put key value)
  | part :: path, key, value =>
    match entries.find? part with
    | none => (assign? [] path key value).map fun inner => entries.put part (.table .dotted inner)
    | some (.table origin inner) =>
      if origin = .dotted ∨ (origin = .implied ∧ path ≠ []) then
        (assign? inner path key value).map fun inner => entries.put part (.table origin inner)
      else none
    | some (.tables elements) =>
      match elements.getLast?, path with
      | some inner, _ :: _ =>
        (assign? inner path key value).map fun inner =>
          entries.put part (.tables (elements.dropLast ++ [inner]))
      | _, _ => none
    | some _ => none

/-- The entries of the table between braces that some pairs make, none of which may be given
twice. -/
def ofPairs? (pairs : List (List String × String × Value)) : Option Entries :=
  pairs.foldlM (fun entries (path, key, value) => entries.assign? path key value) []

end Entries

namespace Reader

/-- A value that may contain others to a depth. `fuel` bounds the number of those
that lie directly in one. -/
def value? (fuel : Nat) : Nat → List Char → Option (Value × List Char)
  | depth, text =>
    match depth, text with
    | depth + 1, '[' :: rest =>
      (items? (value? fuel depth) fuel rest).map fun (items, rest) => (.array items, rest)
    | depth + 1, '\x7b' :: rest =>
      match dropSpaces rest with
      | '\x7d' :: rest => some (.table .inline [], rest)
      | rest => do
        let (pairs, rest) ← pairs? (value? fuel depth) fuel rest
        return (.table .inline (← Entries.ofPairs? pairs), rest)
    | _, '"' :: _ => (Quoted.read? text).map fun (s, rest) => (.text (String.ofList s), rest)
    | _, '\x27' :: _ => (Quoted.read? text).map fun (s, rest) => (.text (String.ofList s), rest)
    | _, _ => Scalar.read? text

/-! ## Statements -/

/-- The path of a header, with whether it is that of repeated tables, and what follows its
closing brackets. -/
def header? (text : List Char) : Option ((List String × Bool) × List Char) :=
  match text with
  | '[' :: '[' :: rest => do
    match ← key? maxNesting rest with
    | (path, ']' :: ']' :: rest) => return ((path, true), rest)
    | _ => failure
  | '[' :: rest => do
    match ← key? maxNesting rest with
    | (path, ']' :: rest) => return ((path, false), rest)
    | _ => failure
  | _ => none

/-- A statement up to the end of its line. `fuel` bounds the number of values that
lie directly in one. -/
def statement? (fuel : Nat) (text : List Char) : Option (Statement × List Char) :=
  match text with
  | '[' :: _ => do
    let ((path, repeated), rest) ← header? text
    return (if repeated then .element path else .table path, ← endLine? rest)
  | _ => do
    let ((path, key, value), rest) ← pair? (value? fuel maxNesting) text
    return (.assign path key value, ← endLine? rest)

/-- The statements of some lines; `lines` bounds their number, and `fuel` that of the
values that lie directly in one. -/
def statementsOf? (fuel : Nat) : Nat → List Char → Option (List Statement)
  | 0, _ => none
  | lines + 1, text =>
    match dropComment (dropSpaces text) with
    | [] => some []
    | rest =>
      match Quoted.afterLineEnd? rest with
      | some rest => statementsOf? fuel lines rest
      | none => do
        let (statement, rest) ← statement? fuel (dropSpaces text)
        return statement :: (← statementsOf? fuel lines rest)

/-- Without a byte order mark at the beginning, which is allowed there but is not part of the
document. -/
def dropMark : List Char → List Char
  | '\ufeff' :: rest => rest
  | text => text

end Reader

/-- The statements of a document. Lines and values take a character each at least, so
there are no more of them than characters. -/
def statements? (text : List Char) : Option (List Statement) :=
  let text := Reader.dropMark text
  let fuel := text.length + 1
  Reader.statementsOf? fuel fuel text

end Compander.Toml
