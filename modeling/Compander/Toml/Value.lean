/-!
# TOML values

The values of a TOML document. Tables remember how they came about, because that
decides which later lines may add to them.

* `Toml.Value` — scalars, arrays, tables, and repeated tables;
* `Toml.Entries` — what is in a table, with `find?` and `put`;
* `Toml.Origin` — whether a table was opened by a header, implied on the way to
  another one, named by a dotted key, or written between braces.

Dates and times are kept as one kind of value without what they say, as nothing
here asks for it.
-/

namespace Compander.Toml

/-- How a table came about, and so what may still be added to it. -/
inductive Origin where
  /-- its own header -/
  | header
  /-- the header of a table inside it -/
  | implied
  /-- a dotted key -/
  | dotted
  /-- braces; nothing may be added -/
  | inline
  deriving DecidableEq, Repr

/-- A TOML value, with as much of it as some reader asks for. -/
inductive Value where
  /-- a quoted text -/
  | text (text : String)
  /-- a whole number of 64 bits -/
  | integer (n : Int)
  /-- a double -/
  | float (x : Float)
  /-- true or false -/
  | boolean (b : Bool)
  /-- a date, a time, or both; which one does not matter here -/
  | moment
  /-- values between brackets -/
  | array (items : List Value)
  /-- keys and their values -/
  | table (origin : Origin) (entries : List (String × Value))
  /-- the tables of a repeated header -/
  | tables (elements : List (List (String × Value)))

/-- Keys and their values, in the order in which they were first given. -/
abbrev Entries := List (String × Value)

namespace Entries

/-- The value of a key, if it has one in this very table. -/
def find? (entries : Entries) (key : String) : Option Value :=
  entries.lookup key

/-- The entries with the value of a key replaced, or added at the end. -/
def put (entries : Entries) (key : String) (value : Value) : Entries :=
  match entries with
  | [] => [(key, value)]
  | (k, v) :: rest => if k = key then (k, value) :: rest else (k, v) :: put rest key value

end Entries

end Compander.Toml
