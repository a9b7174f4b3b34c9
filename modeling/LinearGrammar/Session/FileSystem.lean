import LinearGrammar.Session.Demand
import LinearGrammar.Text.Utf8

/-!
# File systems

The files of a session are kept by a system that is not part of it, and a session knows of that system
only what comes back when it asks. `FileSystem φ` is the list of what it may ask, where a `φ` is
everything an answer depends on at some moment: which paths lead where, what the files hold, what
is allowed. So nothing that is said of sessions in general hangs on what directories are like. What is
relied on is that reading changes nothing, and that the files change only when the session writes.
-/

namespace LinearGrammar

class FileSystem (φ : Type) where
  /-- A file that is open for reading, whatever path it was opened by. -/
  Handle : Type
  openFile : φ → String → Except FileFault Handle
  /-- The bytes that a read at some place of a file brings, of which there is none at its end. -/
  readAt : φ → Handle → (offset length : Nat) → Except FileFault (List UInt8)
  /-- All bytes of a file. -/
  read : φ → String → Except FileFault (List UInt8)
  /-- Makes a file with these bytes, or puts them in the place of what it held. A write that fails may
  have changed the files all the same. -/
  write : φ → String → List UInt8 → Except FileFault Unit × φ

namespace FileSystem

variable {φ : Type} [FileSystem φ]

def readText (files : φ) (path : String) : Except FileFault String :=
  match read files path with
  | .error fault => .error fault
  | .ok bytes =>
    match Text.decode bytes with
    | .ok text => .ok text
    | .error _ => .error .notText

def writeText (files : φ) (path text : String) : Except FileFault Unit × φ :=
  write files path (Text.encode text)

end FileSystem

end LinearGrammar
