import Compander.Files

/-!
# Folders

A tree of files as a value. Its files and folders are numbered; a folder knows the
numbers of what is in it by their names, and that of the folder around it. Paths
begin at the root or, without a slash at the front, at a working folder.
`Files (StateM Folder)` gives such a tree to programs that are written over `Files`.

* `walk` — the spot that the steps of a path lead to, through folders that are there;
* `find?`, `read` — what is at the end of a path;
* `write`, `makeFolder` — the tree with one more file or folder.

A program can be run on a tree without any disk, and what it does to files is then a
function that can be reasoned about. The faults are those of a disk: a name that is
not there, a file where a folder should be, and the other way around.
-/

namespace Compander

/-- A file or a folder of a tree. What it is called is known to the folder that it is in. -/
inductive Entry where
  /-- a file of some bytes -/
  | file (bytes : List UInt8)
  /-- a folder, with the number of the folder around it, and the numbers of what is in
  it by their names -/
  | folder (around : Nat) (inside : List (String × Nat))
  deriving Repr

/-- A tree of files and folders, at first with nothing but a few empty folders in it. -/
structure Folder where
  /-- the files and folders by their numbers; the first one is the root -/
  entries : Array Entry := #[.folder 0 [("tmp", 1)], .folder 0 [("compander", 2)], .folder 1 []]
  /-- the number of the working folder -/
  working : Nat := 2
  deriving Repr

/-- Where a path leads: to what is there, or to a place where something could be made. -/
inductive Spot where
  /-- to what has a number -/
  | taken (number : Nat)
  /-- to a name in a folder that nothing has -/
  | free (folder : Nat) (name : String)
  deriving DecidableEq, Repr

namespace Folder

/-- The most bytes that a name may have, as on the usual file systems. -/
def nameLimit : Nat := 255

/-- The most bytes that a path may have, as on the usual operating systems. -/
def pathLimit : Nat := 4095

/-! ## Paths -/

/-- Refuses the paths that lead nowhere in any tree: an empty one, one that is too long, one
with a terminator in it. -/
def checkPath (path : String) : Except FileFault Unit := do
  if '\x00' ∈ path.toList then throw .terminator
  if path = "" then throw .notFound
  if pathLimit < path.utf8ByteSize then throw .tooLong

/-- The spot where a path begins, the root for a path with a slash at its front. -/
def start (f : Folder) (path : String) : Spot :=
  .taken (if path.toList.head? = some '/' then 0 else f.working)

/-- The spot that a step leads to from a folder with a number. A step may stay in the folder
or go back to the one around it. -/
def stepFrom (number around : Nat) (inside : List (String × Nat)) (step : String) :
    Except FileFault Spot :=
  if step = "" ∨ step = "." then .ok (.taken number)
  else if step = ".." then .ok (.taken around)
  else if nameLimit < step.utf8ByteSize then .error .tooLong
  else
    match inside.lookup step with
    | some found => .ok (.taken found)
    | none => .ok (.free number step)

/-- The spot that some steps lead to from a spot. Every step starts at a folder. -/
def walk (f : Folder) : Spot → List String → Except FileFault Spot
  | spot, [] => .ok spot
  | .free _ _, _ :: _ => .error .notFound
  | .taken number, step :: rest =>
    match f.entries[number]? with
    | none => .error .notFound
    | some (.file _) => .error .notFolder
    | some (.folder around inside) =>
      match stepFrom number around inside step with
      | .ok spot => f.walk spot rest
      | .error fault => .error fault

/-- Steps without the slashes at their end, which do not matter to the path of a folder. -/
def unslashed (steps : List String) : List String :=
  (steps.reverse.dropWhile (· = "")).reverse

/-! ## Files and folders -/

/-- What a path leads to, be it a file or a folder. -/
def find? (f : Folder) (path : String) : Except FileFault Entry := do
  checkPath path
  match ← f.walk (f.start path) (Files.steps path) with
  | .taken number =>
    match f.entries[number]? with
    | some entry => return entry
    | none => throw .notFound
  | .free _ _ => throw .notFound

/-- The bytes of a file; a folder has none. -/
def read (f : Folder) (path : String) : Except FileFault (List UInt8) := do
  match ← f.find? path with
  | .file bytes => return bytes
  | .folder _ _ => throw .isFolder

/-- The tree with an entry under a new name in a folder. The entry gets the next number. -/
def add (f : Folder) (folder : Nat) (name : String) (entry : Entry) : Folder :=
  let number := f.entries.size
  let enter : Entry → Entry
    | .folder around inside => .folder around ((name, number) :: inside)
    | other => other
  { f with entries := (f.entries.modify folder enter).push entry }

/-- The tree with a file of some bytes. A path that ends in a slash asks for a
folder, whatever is there. -/
def write (f : Folder) (path : String) (bytes : List UInt8) : Except FileFault Folder := do
  checkPath path
  let steps := Files.steps path
  if steps.getLast? = some "" then
    let _ ← f.walk (f.start path) ((unslashed steps).dropLast ++ [""])
    throw .isFolder
  match ← f.walk (f.start path) steps with
  | .free folder name => return f.add folder name (.file bytes)
  | .taken number =>
    if f.entries[number]? matches some (.folder _ _) then throw .isFolder
    return { f with entries := f.entries.setIfInBounds number (.file bytes) }

/-- The tree with one more folder, empty, in a folder that is there. -/
def makeFolder (f : Folder) (path : String) : Except FileFault Folder := do
  checkPath path
  match ← f.walk (f.start path) (unslashed (Files.steps path)) with
  | .free folder name => return f.add folder name (.folder folder [])
  | .taken _ => throw .occupied

/-- Runs a change of the tree, which stays as it is on a fault, as it does on a disk. -/
def change (f : Folder → Except FileFault Folder) : StateM Folder (Except FileFault Unit) :=
  fun folder =>
    match f folder with
    | .ok changed => (.ok (), changed)
    | .error fault => (.error fault, folder)

instance : Files (StateM Folder) where
  readBytes path := do return (← get).read path
  writeBytes path bytes := change (·.write path bytes)
  makeFolder path := change (·.makeFolder path)
  isPresent path := do
    return (← get).find? path matches .ok _
  isFile path := do
    return (← get).find? path matches .ok (.file _)
  isFolder path := do
    return (← get).find? path matches .ok (.folder _ _)

end Folder

end Compander
