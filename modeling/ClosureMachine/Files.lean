/-!
# Files

The commands see a working directory: a finite map from names to what they open. A path
that is no such name is resolved component by component, from the working directory or from
the root. Nothing is known of what stands outside the working directory but that the
directories above it are there.
-/

namespace ClosureMachine

inductive FileError where
  | notFound
  | notDirectory
  | isDirectory
  | nameTooLong
  | nulInPath
  | notText
  deriving DecidableEq, Repr

def FileError.message : FileError → String
  | .notFound => "No such file or directory (os error 2)"
  | .notDirectory => "Not a directory (os error 20)"
  | .isDirectory => "Is a directory (os error 21)"
  | .nameTooLong => "File name too long (os error 36)"
  | .nulInPath => "file name contained an unexpected NUL byte"
  | .notText => "stream did not contain valid UTF-8"

/-- What an open path gives: bytes to read, or a directory, which opens but does not read. -/
inductive FileSource where
  | content (bytes : List UInt8)
  | directory

structure Files where
  entries : List (String × FileSource)

namespace Files

/-- The most bytes of one component of a path. -/
def maxName : Nat := 255

/-- The most bytes of a path. -/
def maxPath : Nat := 4095

/-- Where the resolution of a path has come to. -/
inductive Place where
  | working
  | outside
  deriving DecidableEq

def findName (files : Files) (name : String) : Except FileError FileSource :=
  match files.entries.find? (·.1 == name) with
  | some (_, source) => .ok source
  | none => .error .notFound

def findIn (files : Files) (place : Place) (name : String) : Except FileError FileSource :=
  if maxName < name.utf8ByteSize then .error .nameTooLong
  else
    match place with
    | .working => files.findName name
    | .outside => .error .notFound

/-- Resolves the components of a path. `.` and an empty component name the directory they
stand in and `..` the one above it; a file has nothing below it. -/
def findComponents (files : Files) (place : Place) : List String → Except FileError FileSource
  | [] => .ok .directory
  | name :: rest =>
    if name = "" ∨ name = "." then files.findComponents place rest
    else if name = ".." then files.findComponents .outside rest
    else
      match files.findIn place name, rest with
      | .ok source, [] => .ok source
      | .ok _, _ :: _ => .error .notDirectory
      | .error e, _ => .error e

/-- Where a path starts. -/
def startOf (path : String) : Place :=
  if path.startsWith "/" then .outside else .working

/-- Opens a path. The empty path names nothing. -/
def find (files : Files) (path : String) : Except FileError FileSource :=
  if path.any (· == '\x00') then .error .nulInPath
  else if files.entries.any (·.1 == path) then files.findName path
  else if path = "" then .error .notFound
  else if maxPath < path.utf8ByteSize then .error .nameTooLong
  else files.findComponents (startOf path) (path.splitOn "/")

/-- Reads a whole file. -/
def readBytes (files : Files) (path : String) : Except FileError (List UInt8) :=
  match files.find path with
  | .ok (.content bytes) => .ok bytes
  | .ok .directory => .error .isDirectory
  | .error e => .error e

def decodeText (bytes : List UInt8) : Except FileError String :=
  match String.fromUTF8? ⟨bytes.toArray⟩ with
  | some text => .ok text
  | none => .error .notText

def readText (files : Files) (path : String) : Except FileError String :=
  files.readBytes path >>= decodeText

end Files

end ClosureMachine
