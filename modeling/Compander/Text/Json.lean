/-!
# JSON text

JSON values and their text over several lines, two spaces further in for each
level. Names and words are written as they are, so they must not hold characters
that JSON escapes.

Numbers come in as they are to be spelled (`Json.literal`), because how many digits
they have is not for this module to say. Arrays and objects keep the order of their
elements, and empty ones stand on one line.
-/

namespace Compander

/-- A JSON value, in as much detail as its text needs. -/
inductive Json where
  /-- a number or `null`, as its text -/
  | literal (text : String)
  /-- a text between quotes -/
  | word (text : String)
  /-- values in order -/
  | array (items : List Json)
  /-- names and their values in order -/
  | object (fields : List (String × Json))

namespace Json

/-- The start of a line at a level, two spaces for each. -/
def indentation (level : Nat) : String :=
  String.ofList (List.replicate (2 * level) ' ')

/-- Elements at a level between brackets, each on a line of its own. -/
def enclose (opening closing : String) (level : Nat) (elements : List String) : String :=
  if elements.isEmpty then opening ++ closing
  else
    let inside := "\n" ++ indentation (level + 1)
    opening ++ inside ++ String.intercalate ("," ++ inside) elements
      ++ "\n" ++ indentation level ++ closing

mutual

/-- The text of a value that stands at a level, without what stands before it on its first
line. -/
def renderAt (level : Nat) : Json → String
  | literal text => text
  | word text => "\"" ++ text ++ "\""
  | array items => enclose "[" "]" level (renderItems (level + 1) items)
  | object fields => enclose "\x7b" "\x7d" level (renderFields (level + 1) fields)

/-- The texts of some values at a level, as the elements of an array. -/
def renderItems (level : Nat) : List Json → List String
  | [] => []
  | item :: rest => renderAt level item :: renderItems level rest

/-- The texts of some fields at a level, as the elements of an object: name, colon and
value. -/
def renderFields (level : Nat) : List (String × Json) → List String
  | [] => []
  | (name, value) :: rest =>
    ("\"" ++ name ++ "\": " ++ renderAt level value) :: renderFields level rest

end

/-- The text of a value, at the level of a whole document. -/
def render (value : Json) : String :=
  renderAt 0 value

end Json

end Compander
