import Compander.Text.Blank

/-!
# Files

What the library needs of a file system, as a class of operations (`Files m`), and
what can go wrong with one of them (`FileFault`). A program that reads and writes
files is written over the class once; it runs on the disk, and on a folder that is
a plain value (`Compander.Files.Folder`).

* `Files.readText`, `Files.writeText` — texts in files, in UTF-8;
* `Files.steps`, `Files.parent?`, `Files.outward` — paths, taken apart as texts,
  without a look at what is there;
* `Files.makeFolders` — a folder and those around it.

The operations answer with a fault rather than fail, so a program says itself
what it does about one.
-/

namespace Compander

/-- What is wrong with a file operation, in the kinds that operating systems tell apart. -/
inductive FileFault where
  /-- nothing is there -/
  | notFound
  /-- a folder stands where a file is expected -/
  | isFolder
  /-- a file stands where a folder is expected -/
  | notFolder
  /-- something is there already -/
  | occupied
  /-- the path, or a name in it, is too long -/
  | tooLong
  /-- the path holds a character that ends texts -/
  | terminator
  /-- the bytes are not the UTF-8 form of a text -/
  | notText
  /-- something else, in the words of the system -/
  | other (text : String)
  deriving DecidableEq, Repr

namespace FileFault

/-- The wording of a fault, that of the operating system, with the number that it has there if
it has one. -/
def message : FileFault → String
  | notFound => "No such file or directory (os error 2)"
  | isFolder => "Is a directory (os error 21)"
  | notFolder => "Not a directory (os error 20)"
  | occupied => "File exists (os error 17)"
  | tooLong => "File name too long (os error 36)"
  | terminator => "file name contained an unexpected NUL byte"
  | notText => "stream did not contain valid UTF-8"
  | other text => text

end FileFault

/-- Access to files by their paths, in whatever monad has them. -/
class Files (m : Type → Type) where
  /-- the bytes of a file -/
  readBytes : String → m (Except FileFault (List UInt8))
  /-- makes a file of some bytes, in place of the file that was there -/
  writeBytes : String → List UInt8 → m (Except FileFault Unit)
  /-- makes a folder in one that is there -/
  makeFolder : String → m (Except FileFault Unit)
  /-- whether anything is there -/
  isPresent : String → m Bool
  /-- whether a file is there -/
  isFile : String → m Bool
  /-- whether a folder is there -/
  isFolder : String → m Bool

namespace Files

variable {m : Type → Type} [Monad m] [Files m]

/-- The text that some bytes spell in UTF-8; bytes that spell none are a fault of the file. -/
def textOf (bytes : List UInt8) : Except FileFault String :=
  match String.fromUTF8? bytes.toByteArray with
  | some text => .ok text
  | none => .error .notText

/-- The bytes of a text in UTF-8, as they are put into a file. -/
def bytesOf (text : String) : List UInt8 :=
  text.toUTF8.toList

/-- The text of a file, as a whole. -/
def readText (path : String) : m (Except FileFault String) := do
  return (← readBytes path).bind textOf

/-- Makes a file of a text, in place of the file that was there. -/
def writeText (path : String) (text : String) : m (Except FileFault Unit) :=
  writeBytes path (bytesOf text)

/-! ## Paths -/

/-- The steps of a path: what stands between its slashes, empty steps included. -/
def steps (path : String) : List String :=
  (Text.splitOn '/' path.toList).map String.ofList

/-- The steps of a path, last one first, without those at the end that stay where
they are. The first step of the path is always kept. -/
def dropIdle : List String → List String
  | step :: before :: rest =>
    if step = "" ∨ step = "." then dropIdle (before :: rest) else step :: before :: rest
  | steps => steps

/-- The path of the folder that a path lies in; empty if that is the working
folder. Neither the empty path nor the root lies in a folder. -/
def parent? (path : String) : Option String :=
  match dropIdle (steps path).reverse with
  | [] => none
  | [step] => if step = "" then none else some ""
  | _ :: before =>
    match (dropIdle before).reverse with
    | [""] => some "/"
    | steps => some (String.intercalate "/" steps)

/-- A path and the paths of the folders around it, each of them in the next one, as
far as a number of them. -/
def outward : Nat → String → List String
  | 0, _ => []
  | count + 1, path =>
    if path = "" then []
    else path :: ((parent? path).map (outward count)).getD []

/-! ## Folders -/

/-- Makes a folder if there is none. A file in its place is still a fault. -/
def ensureFolder (path : String) : m (Except FileFault Unit) := do
  match ← makeFolder path with
  | .error .occupied =>
    return if ← isFolder path then .ok () else .error .occupied
  | made => return made

/-- Makes the first of some folders, each of which lies in the next one. Where the
next one is missing, it is made first. -/
def ensureFolders : List String → m (Except FileFault Unit)
  | [] => return .ok ()
  | path :: around => do
    match ← ensureFolder path with
    | .error .notFound =>
      match ← ensureFolders around with
      | .ok () => ensureFolder path
      | .error fault => return .error fault
    | made => return made

/-- Makes a folder, and the folders on the way to it. What is made on the way stays
there if the folder cannot be made. -/
def makeFolders (path : String) : m (Except FileFault Unit) :=
  ensureFolders (outward (steps path).length path)

end Files

end Compander
