/-!
# Blank characters and cutting text

Trimming and splitting on lists of characters:

* `isBlank`, `trim` — white space in the sense of the Unicode property
  `White_Space`, and its removal at both ends;
* `splitOn`, `splitOnce?`, `joinWith` — cutting at every, or at the first,
  occurrence of a character, and joining again;
* `padLeft`, `padRight` — text brought to a width, for tables.

Texts are taken apart as lists of characters rather than as strings, so that each
function is a recursion over what it reads.
-/

namespace Compander.Text

/-- The characters with the Unicode property `White_Space`, of which there are few outside of
ASCII. -/
def isBlank (c : Char) : Bool :=
  let n := c.toNat
  (9 ≤ n && n ≤ 13) || n == 0x20 || n == 0x85 || n == 0xA0 || n == 0x1680
    || (0x2000 ≤ n && n ≤ 0x200A) || n == 0x2028 || n == 0x2029 || n == 0x202F
    || n == 0x205F || n == 0x3000

/-- Text without the blanks at its ends. Those inside of it stay. -/
def trim (text : List Char) : List Char :=
  ((text.dropWhile isBlank).reverse.dropWhile isBlank).reverse

/-- The pieces between the occurrences of a separator; there is one piece more
than there are separators. -/
def splitOn (separator : Char) : List Char → List (List Char)
  | [] => [[]]
  | c :: rest =>
    if c = separator then [] :: splitOn separator rest
    else
      match splitOn separator rest with
      | [] => [[c]]
      | piece :: pieces => (c :: piece) :: pieces

/-- What stands before and after the first occurrence of a separator; further ones are in what
stands after it. -/
def splitOnce? (separator : Char) : List Char → Option (List Char × List Char)
  | [] => none
  | c :: rest =>
    if c = separator then some ([], rest)
    else (splitOnce? separator rest).map fun (before, after) => (c :: before, after)

/-- The pieces in order, with the separator between each two, so that splitting gives them
back if none holds one. -/
def joinWith (separator : Char) : List (List Char) → List Char
  | [] => []
  | [piece] => piece
  | piece :: pieces => piece ++ separator :: joinWith separator pieces

/-- Text padded with spaces on the left to a width in characters. A text that is wider stays
as it is. -/
def padLeft (width : Nat) (text : String) : String :=
  String.ofList (List.replicate (width - text.length) ' ') ++ text

/-- Text padded with spaces on the right to a width in characters. A text that is wider stays
as it is. -/
def padRight (width : Nat) (text : String) : String :=
  text ++ String.ofList (List.replicate (width - text.length) ' ')

end Compander.Text
