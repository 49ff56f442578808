import AbiSig.CommandLine.Program

/-!
# Runs in a given directory

A `Directory` is a working directory whose files are known, so that a whole run is a function:
`Program.runIn` answers what the program waits for from the directory and from given standard input.

`Directory.read` follows a path name by name, as systems do. The directory holds files only, so a
name leads to a file or to nothing; `.` and an empty name stay, `..` leads outside, where nothing
but the directories further out is known.
-/

namespace AbiSig.CommandLine

/-- The files of a working directory, by name. -/
structure Directory where
  files : List (String × ByteArray) := []

namespace Directory

/-- A name in a path has at most so many bytes. -/
def nameLimit : Nat := 255

/-- A path has at most so many bytes. -/
def pathLimit : Nat := 4095

/-- Where a path has led so far. -/
inductive Place where
  /-- In the working directory. -/
  | here
  /-- In a directory further out. -/
  | outside
  /-- At a file. -/
  | file (bytes : ByteArray)

/-- Why a name that is not there cannot be entered. -/
def absent (name : String) : ReadFault :=
  if nameLimit < name.utf8ByteSize then .nameTooLong else .missing

/-- Where one more name of a path leads. -/
def enter (d : Directory) (place : Place) (name : String) : Except ReadFault Place :=
  match place with
  | .file _ => .error .notDirectory
  | .outside => if name = "" ∨ name = "." ∨ name = ".." then .ok .outside else .error (absent name)
  | .here =>
    if name = "" ∨ name = "." then .ok .here
    else if name = ".." then .ok .outside
    else
      match d.files.lookup name with
      | some bytes => .ok (.file bytes)
      | none => .error (absent name)

/-- The bytes of the file at a path. -/
def read (d : Directory) (path : String) : Except ReadFault ByteArray := do
  if path = "" then throw .missing
  if pathLimit < path.utf8ByteSize then throw .nameTooLong
  let start : Place := if path.toList.head? = some '/' then .outside else .here
  match ← (path.splitOn "/").foldlM d.enter start with
  | .file bytes => return bytes
  | .here | .outside => throw .isDirectory

end Directory

/-- The report of a run in a directory with given standard input. -/
def Program.runIn (d : Directory) (input : ByteArray) : Program → Report
  | finished report => report
  | reading .standardInput resume => resume (.ok input)
  | reading (.file path) resume => resume (d.read path)

end AbiSig.CommandLine
