import Compander.Toml.Reader

/-!
# TOML documents

What the statements of a document mean together: a header says in which table the
keys below it lie, and no key and no table may be given twice. `Toml.read?` reads
a document to the entries of its root table.

* `Entries.within?` — a change somewhere inside the root table;
* `Entries.openTable?`, `Entries.openElement?` — what a header does, that of a table
  and that of one more of repeated tables;
* `Draft.add?` — one statement after those that have been read.

A table that has only been passed on the way to another one may still get a header
of its own, but only one. How a table came about is kept with it (`Toml.Origin`).
-/

namespace Compander.Toml

namespace Entries

/-- The entries with the table at the end of a path changed. The path goes through
the last of repeated tables; tables that are not there are implied. -/
def within? (change : Entries → Option Entries) (entries : Entries) :
    List String → Option Entries
  | [] => change entries
  | part :: path =>
    match entries.find? part with
    | none => (within? change [] path).map fun inner => entries.put part (.table .implied inner)
    | some (.table .inline _) => none
    | some (.table origin inner) =>
      (within? change inner path).map fun inner => entries.put part (.table origin inner)
    | some (.tables elements) =>
      match elements.getLast? with
      | some inner =>
        (within? change inner path).map fun inner =>
          entries.put part (.tables (elements.dropLast ++ [inner]))
      | none => none
    | some _ => none

/-- The entries with a new table, or with one that headers only implied so far. -/
def openTable? (key : String) (entries : Entries) : Option Entries :=
  match entries.find? key with
  | none => some (entries.put key (.table .header []))
  | some (.table .implied inner) => some (entries.put key (.table .header inner))
  | some _ => none

/-- The entries with one more of the repeated tables of a name, or with the first one. -/
def openElement? (key : String) (entries : Entries) : Option Entries :=
  match entries.find? key with
  | none => some (entries.put key (.tables [[]]))
  | some (.tables elements) => some (entries.put key (.tables (elements ++ [[]])))
  | some _ => none

end Entries

/-- A document so far: its root table, and the path of the last header. -/
structure Draft where
  /-- the root table -/
  root : Entries := []
  /-- the path of the table that keys go to -/
  path : List String := []

namespace Draft

/-- The document with one more statement. Keys go into the table of the last header, or into
the root table before there is one. -/
def add? (d : Draft) : Statement → Option Draft
  | .table path => do
    let (parents, key) ← Reader.splitKey? path
    return ⟨← d.root.within? (Entries.openTable? key) parents, path⟩
  | .element path => do
    let (parents, key) ← Reader.splitKey? path
    return ⟨← d.root.within? (Entries.openElement? key) parents, path⟩
  | .assign path key value => do
    return { d with root := ← d.root.within? (·.assign? path key value) d.path }

end Draft

/-- The root table of a document, if every statement can be added to those before it. -/
def read? (text : List Char) : Option Entries := do
  return (← (← statements? text).foldlM Draft.add? {}).root

end Compander.Toml
