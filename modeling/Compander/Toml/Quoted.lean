/-!
# Quoted text

The four ways to quote a text in TOML: between single or triple marks, with
double marks, where a backslash begins an escape, or single marks, where nothing
does. Triple marks may enclose line ends.

* `quote` — a text in the first of five forms that fits it;
* `read?` — a quoted text at the beginning of some characters, and what follows.

Which form fits is a matter of looks: the fewer escapes the better, and on one line
rather than on several if there are no line feeds. Every text has a form, since
between triple double marks anything can be escaped.

A reader of a quoted text begins after the marks that open it, and ends with those
that close it; what it gives out is the text and the characters behind.
-/

namespace Compander.Toml

/-- Characters that only an escape can stand for: the control characters other
than tab and line feed. -/
def isControl (c : Char) : Bool :=
  (c.toNat < 0x20 && c ≠ '\t' && c ≠ '\n') || c.toNat = 0x7F

namespace Quoted

/-! ## Writing -/

/-- A control character as a four-digit escape, for those that have none of their own. -/
def hexEscape (c : Char) : List Char :=
  let digits := (Nat.toDigits 16 c.toNat).map Char.toUpper
  '\\' :: 'u' :: (List.replicate (4 - digits.length) '0' ++ digits)

/-- A character between double marks, where `"` and a line feed are escaped. -/
def escape (c : Char) : List Char :=
  if c = '\x08' then ['\\', 'b']
  else if c = '\t' then ['\\', 't']
  else if c = '\n' then ['\\', 'n']
  else if c = '\x0c' then ['\\', 'f']
  else if c = '\r' then ['\\', 'r']
  else if c = '"' then ['\\', '"']
  else if c = '\\' then ['\\', '\\']
  else if isControl c then hexEscape c
  else [c]

/-- Text between triple double marks. A line feed stands for itself, and so does
`"`, except every third of a run; `run` counts the marks of the run so far. -/
def escapeLines (run : Nat) : List Char → List Char
  | [] => []
  | c :: rest =>
    if c = '"' then
      if run = 2 then '\\' :: '"' :: escapeLines 0 rest else '"' :: escapeLines (run + 1) rest
    else if c = '\n' then '\n' :: escapeLines 0 rest
    else escape c ++ escapeLines 0 rest

/-- Whether some mark occurs three times in a row; `run` counts those just
before. -/
def hasTriple (mark : Char) (run : Nat) : List Char → Bool
  | [] => false
  | c :: rest =>
    if c = mark then run = 2 || hasTriple mark (run + 1) rest else hasTriple mark 0 rest

/-- What opens a text between triple marks: a line feed after the marks is not
part of the text, so one is put there if the text has line feeds at all. -/
def opening (text : List Char) : List Char :=
  if text.contains '\n' then ['\n'] else []

/-- The text in the first form that fits: between double marks without escapes
other than for tabs; between single marks; between triple double marks without
escapes other than for tabs; between triple single marks; with escapes. -/
def quote (text : List Char) : List Char :=
  let codes := text.any isControl
  let lines := text.contains '\n'
  let double := '"'
  let single := '\x27'
  let triple (mark : Char) : List Char := [mark, mark, mark]
  if !codes && !text.contains '\\' && !text.contains double && !lines then
    double :: (text.flatMap escape ++ [double])
  else if !codes && !text.contains single && !lines then
    single :: (text ++ [single])
  else if !codes && !text.contains '\\' && !hasTriple double 0 text then
    triple double ++ opening text ++ escapeLines 0 text ++ triple double
  else if !codes && !hasTriple single 0 text then
    triple single ++ opening text ++ text ++ triple single
  else if lines then
    triple double ++ opening text ++ escapeLines 0 text ++ triple double
  else double :: (text.flatMap escape ++ [double])

/-! ## Reading -/

/-- Characters that stand for themselves in quoted text: all but control
characters and line feeds. -/
def isPlain (c : Char) : Bool :=
  !isControl c && c ≠ '\n'

/-- The value of a hexadecimal digit, in either case. -/
def hexValue? (c : Char) : Option Nat :=
  if c.isDigit then some (c.toNat - '0'.toNat)
  else if 'a' ≤ c ∧ c ≤ 'f' then some (c.toNat - 'a'.toNat + 10)
  else if 'A' ≤ c ∧ c ≤ 'F' then some (c.toNat - 'A'.toNat + 10)
  else none

/-- The character of some hexadecimal digits, if they are the number of one. -/
def hexChar? (digits : List Char) : Option Char := do
  let n ← digits.foldlM (fun n c => (hexValue? c).map (16 * n + ·)) 0
  if n.isValidChar then return Char.ofNat n else failure

/-- The character that an escape stands for, from the characters after the
backslash, and how many of those belong to it. -/
def escaped? : List Char → Option (Char × Nat)
  | 'b' :: _ => some ('\x08', 1)
  | 't' :: _ => some ('\t', 1)
  | 'n' :: _ => some ('\n', 1)
  | 'f' :: _ => some ('\x0c', 1)
  | 'r' :: _ => some ('\r', 1)
  | '"' :: _ => some ('"', 1)
  | '\\' :: _ => some ('\\', 1)
  | 'u' :: a :: b :: c :: d :: _ => (hexChar? [a, b, c, d]).map (·, 5)
  | 'U' :: a :: b :: c :: d :: e :: f :: g :: h :: _ =>
    (hexChar? [a, b, c, d, e, f, g, h]).map (·, 9)
  | _ => none

/-- A read text with one more character in front, and the same characters behind. -/
def prepend (c : Char) (read : List Char × List Char) : List Char × List Char :=
  (c :: read.1, read.2)

/-- The rest of a text between double marks, up to the first mark that is not escaped. -/
def readDouble? (text : List Char) : Option (List Char × List Char) :=
  match text with
  | [] => none
  | '"' :: rest => some ([], rest)
  | '\\' :: rest =>
    match escaped? rest with
    | none => none
    | some (c, count) => (readDouble? (rest.drop count)).map (prepend c)
  | c :: rest => if isPlain c then (readDouble? rest).map (prepend c) else none
termination_by text.length
decreasing_by all_goals (simp only [List.length_cons, List.length_drop]; omega)

/-- The rest of a text between single marks, up to the first mark, as nothing can be
escaped. -/
def readSingle? : List Char → Option (List Char × List Char)
  | [] => none
  | '\x27' :: rest => some ([], rest)
  | c :: rest => if isPlain c then (readSingle? rest).map (prepend c) else none

/-- Space or tab, which are all the blanks that a line may have. -/
def isSpace (c : Char) : Bool :=
  c = ' ' || c = '\t'

/-- The characters after a line end at the beginning, if there is one. -/
def afterLineEnd? : List Char → Option (List Char)
  | '\n' :: rest => some rest
  | '\r' :: '\n' :: rest => some rest
  | _ => none

/-- Without the spaces, tabs and line ends at the beginning, as many lines as there are. -/
def dropLines : List Char → List Char
  | '\r' :: '\n' :: rest => dropLines rest
  | c :: rest => if isSpace c || c = '\n' then dropLines rest else c :: rest
  | [] => []

theorem length_dropLines_le (text : List Char) :
    (dropLines text).length ≤ text.length := by
  fun_induction dropLines text with
  | case1 rest ih => simp only [List.length_cons]; omega
  | case2 c rest _ _ ih => simp only [List.length_cons]; omega
  | case3 => exact Nat.le_refl _
  | case4 => exact Nat.le_refl _

/-- The rest of a text between triple double marks. Up to two marks before the
closing three belong to the text. A backslash at the end of a line takes away the
line end and the blanks that follow. -/
def readLinesDouble? (text : List Char) : Option (List Char × List Char) :=
  match text with
  | [] => none
  | '"' :: '"' :: '"' :: '"' :: '"' :: rest => some (['"', '"'], rest)
  | '"' :: '"' :: '"' :: '"' :: rest => some (['"'], rest)
  | '"' :: '"' :: '"' :: rest => some ([], rest)
  | '"' :: rest => (readLinesDouble? rest).map (prepend '"')
  | '\n' :: rest => (readLinesDouble? rest).map (prepend '\n')
  | '\r' :: '\n' :: rest => (readLinesDouble? rest).map (prepend '\n')
  | '\\' :: rest =>
    if (afterLineEnd? (rest.dropWhile isSpace)).isSome then readLinesDouble? (dropLines rest)
    else
      match escaped? rest with
      | none => none
      | some (c, count) => (readLinesDouble? (rest.drop count)).map (prepend c)
  | c :: rest => if isPlain c then (readLinesDouble? rest).map (prepend c) else none
termination_by text.length
decreasing_by
  all_goals simp only [List.length_cons, List.length_drop]
  all_goals first
    | omega
    | exact Nat.lt_succ_of_le (length_dropLines_le _)

/-- The rest of a text between triple single marks, of which up to two more may stand at its
end. -/
def readLinesSingle? : List Char → Option (List Char × List Char)
  | [] => none
  | '\x27' :: '\x27' :: '\x27' :: '\x27' :: '\x27' :: rest => some (['\x27', '\x27'], rest)
  | '\x27' :: '\x27' :: '\x27' :: '\x27' :: rest => some (['\x27'], rest)
  | '\x27' :: '\x27' :: '\x27' :: rest => some ([], rest)
  | '\x27' :: rest => (readLinesSingle? rest).map (prepend '\x27')
  | '\n' :: rest => (readLinesSingle? rest).map (prepend '\n')
  | '\r' :: '\n' :: rest => (readLinesSingle? rest).map (prepend '\n')
  | c :: rest => if isPlain c then (readLinesSingle? rest).map (prepend c) else none

/-- Without a line end at the beginning, which after triple marks is not part of the text. -/
def dropLineEnd (text : List Char) : List Char :=
  (afterLineEnd? text).getD text

/-- A quoted text on one line, and what follows, as keys are quoted. -/
def readInLine? : List Char → Option (List Char × List Char)
  | '"' :: rest => readDouble? rest
  | '\x27' :: rest => readSingle? rest
  | _ => none

/-- A quoted text, and what follows, by the marks that it begins with. -/
def read? : List Char → Option (List Char × List Char)
  | '"' :: '"' :: '"' :: rest => readLinesDouble? (dropLineEnd rest)
  | '\x27' :: '\x27' :: '\x27' :: rest => readLinesSingle? (dropLineEnd rest)
  | text => readInLine? text

end Quoted

end Compander.Toml
