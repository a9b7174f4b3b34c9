import LinearGrammar.Session.FileSystem
import LinearGrammar.Text.Cut

/-!
# A directory with files

The file system for a session that is run on its own, as values. Such a session works in a directory
that has no subdirectories. Around it nothing is known but the directories that lead to it, and the
root; they hold only what the session itself writes there.

A path is followed step by step. A step that another one follows has to lead to a directory, also
where that other step is a dot that would stay there: `f/.` does not name the file `f`. A slash at the
end asks for a directory as well, and then a file can be neither read nor created.
-/

namespace LinearGrammar

/-- A directory that is known. -/
inductive Directory where
  /-- So many directories above the working directory, which is none above itself. -/
  | above (height : Nat)
  | root
  deriving DecidableEq, Repr

def Directory.parent : Directory → Directory
  | .above height => .above (height + 1)
  | .root => .root

/-- The directory in which a path without a slash at its beginning starts. -/
def Directory.working : Directory := .above 0

structure Location where
  directory : Directory
  name : String
  deriving DecidableEq, Repr

/-- The files and their contents, in the order in which they came to be. -/
abbrev Files := List (Location × List UInt8)

namespace Files

/-- The files of the working directory with these names and contents. -/
def ofEntries (entries : List (String × List UInt8)) : Files :=
  entries.map fun (name, bytes) => (⟨.working, name⟩, bytes)

/-- The names and contents of the files of the working directory. -/
def entries (files : Files) : List (String × List UInt8) :=
  files.filterMap fun (location, bytes) =>
    if location.directory = .working then some (location.name, bytes) else none

/-- What a path names. -/
inductive Place where
  | directory
  /-- A name in a directory, with a slash after it or not. -/
  | entry (location : Location) (withSlash : Bool)
  deriving DecidableEq, Repr

def nameLimit : Nat := 255

def pathLimit : Nat := 4095

/-- A name that no file can have. -/
def isOverlong (name : String) : Bool := nameLimit < name.utf8ByteSize

/-- The steps of a path. Slashes in a row are one. -/
def steps (path : String) : List String := (Text.splitOn '/' path).filter (!·.isEmpty)

/-- Follows the steps of a path from a directory. -/
def follow (files : Files) (withSlash : Bool) (directory : Directory) :
    List String → Except FileFault Place
  | [] => .ok .directory
  | step :: rest =>
    if step == "." then files.follow withSlash directory rest
    else if step == ".." then files.follow withSlash directory.parent rest
    else if rest.isEmpty then .ok (.entry ⟨directory, step⟩ withSlash)
    else if isOverlong step then .error .nameTooLong
    else if (files.lookup ⟨directory, step⟩).isSome then .error .notDirectory
    else .error .notFound

/-- What a path names. -/
def placeOf (files : Files) (path : String) : Except FileFault Place :=
  let start : Directory := if path.toList.head? == some '/' then .root else .working
  if path.toList.contains '\x00' then .error .nulInName
  else if pathLimit < path.utf8ByteSize then .error .nameTooLong
  else if path.isEmpty then .error .notFound
  else files.follow (path.toList.getLast? == some '/') start (steps path)

/-- What can be opened for reading. A directory can, but then nothing is read from it. -/
inductive Opened where
  | directory
  | file (location : Location)
  deriving DecidableEq, Repr

def openPath (files : Files) (path : String) : Except FileFault Opened :=
  match files.placeOf path with
  | .error fault => .error fault
  | .ok .directory => .ok .directory
  | .ok (.entry location withSlash) =>
    if isOverlong location.name then .error .nameTooLong
    else if (files.lookup location).isNone then .error .notFound
    else if withSlash then .error .notDirectory
    else .ok (.file location)

/-- The bytes of a file. There are none where there is no file. -/
def contents (files : Files) (location : Location) : List UInt8 :=
  (files.lookup location).getD []

/-- All bytes of what was opened. -/
def readOpened (files : Files) : Opened → Except FileFault (List UInt8)
  | .directory => .error .isDirectory
  | .file location => .ok (files.contents location)

/-- The files with new contents for one of them. -/
def put (location : Location) (bytes : List UInt8) : Files → Files
  | [] => [(location, bytes)]
  | (l, old) :: rest =>
    if l = location then (location, bytes) :: rest else (l, old) :: put location bytes rest

/-- Writes a file, or tells why that cannot be. A slash at the end is refused before the name is
looked at. -/
def writePath (files : Files) (path : String) (bytes : List UInt8) : Except FileFault Unit × Files :=
  match files.placeOf path with
  | .error fault => (.error fault, files)
  | .ok .directory => (.error .isDirectory, files)
  | .ok (.entry location withSlash) =>
    if withSlash then (.error .isDirectory, files)
    else if isOverlong location.name then (.error .nameTooLong, files)
    else (.ok (), files.put location bytes)

instance : FileSystem Files where
  Handle := Opened
  openFile := openPath
  readAt files opened offset length :=
    (files.readOpened opened).map fun bytes => (bytes.drop offset).take length
  read files path := (files.openPath path).bind files.readOpened
  write := writePath

end Files

end LinearGrammar
