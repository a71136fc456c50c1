import Compander.Command.Reading
import Compander.Command.Running

/-!
# The program

The command line on the files of the disk. The exit code is 1 after trouble and 2
for words that are no command.

What the library asks of a file system is what the operating system does, with its
errors turned into the faults that the library knows (`faultOf`). Whether something
is a file or a folder is told by what happens when its first byte is read: there is
no other way to ask that means the same on all systems.
-/

namespace Compander.Disk

/-- The fault that an error of the system stands for. -/
def faultOf : IO.Error → FileFault
  | .noFileOrDirectory _ _ _ => .notFound
  | .alreadyExists _ _ _ => .occupied
  | .inappropriateType _ 21 _ => .isFolder
  | .inappropriateType _ 20 _ => .notFolder
  | .invalidArgument _ 36 _ => .tooLong
  | .permissionDenied _ code details => .other s!"{details} (os error {code})"
  | error => .other (toString error)

/-- Tries an action, and turns the error that it ends in, if it does, into a fault. -/
def attempt {α : Type} (action : IO α) : IO (Except FileFault α) := do
  return (← action.toBaseIO).mapError faultOf

/-- The bytes of a file, all at once. -/
def readBytes (path : String) : IO (Except FileFault (List UInt8)) :=
  attempt do
    return (← (← IO.FS.Handle.mk path .read).readBinToEnd).toList

/-- Makes a file of some bytes, in place of one that is there. -/
def writeBytes (path : String) (bytes : List UInt8) : IO (Except FileFault Unit) :=
  attempt do
    (← IO.FS.Handle.mk path .write).write bytes.toByteArray

/-- What happens when the first byte of a file is read. -/
def probe (path : String) : IO (Except FileFault Unit) :=
  attempt do
    let _ ← (← IO.FS.Handle.mk path .read).read 1

/-- Whether a folder is there, by the fault that reading one has. -/
def isFolder (path : String) : IO Bool := do
  return (← probe path) matches .error .isFolder

/-- Whether a file is there, be it one that cannot be read. -/
def isFile (path : String) : IO Bool := do
  return (← probe path) matches .ok () | .error (.other _)

/-- Whether anything is there, a file or a folder. -/
def isPresent (path : String) : IO Bool := do
  return (← probe path) matches .ok () | .error (.other _) | .error .isFolder

/-- Makes a folder in one that is there. -/
def makeFolder (path : String) : IO (Except FileFault Unit) :=
  attempt (IO.FS.createDir path)

instance : Files IO where
  readBytes := readBytes
  writeBytes := writeBytes
  makeFolder := makeFolder
  isPresent := isPresent
  isFile := isFile
  isFolder := isFolder

end Compander.Disk

/-- Reads the command line, carries out the command, and prints its report. -/
def main (words : List String) : IO UInt32 := do
  match Compander.Command.ofWords? words with
  | none =>
    IO.eprintln <| "error: the arguments are not those of a command\n\n"
      ++ "For more information, try '--help'."
    return 2
  | some command =>
    let report : Compander.Command.Report ← command.run
    IO.print report.said
    match report.trouble with
    | none => return 0
    | some trouble =>
      IO.eprint trouble.render
      return 1
