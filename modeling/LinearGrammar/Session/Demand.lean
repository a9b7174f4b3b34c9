import LinearGrammar.Sampling.Draws
import LinearGrammar.Service.Failure
import LinearGrammar.Service.Payload
import LinearGrammar.Json.Value

/-!
# What a command needs from outside

A command either runs on its own or needs one thing from outside first: a file to be read or written,
the service to take a grammar, draws for sampling. A `Plan` says which, and how the command goes on
with the reply, so that the same command can be run against the file system or against a world made of
values. One command can do neither: to sample more words than there can ever be room for ends the whole
program.
-/

namespace LinearGrammar

/-- Why a file could not be read or written. -/
inductive FileFault where
  | notFound
  | notDirectory
  | isDirectory
  | nameTooLong
  | nulInName
  /-- The file is there, but holds no UTF-8. -/
  | notText
  /-- Anything else, in the words of the system. -/
  | other (message : String)
  deriving DecidableEq, Repr

def FileFault.message : FileFault → String
  | .notFound => "No such file or directory (os error 2)"
  | .notDirectory => "Not a directory (os error 20)"
  | .isDirectory => "Is a directory (os error 21)"
  | .nameTooLong => "File name too long (os error 36)"
  | .nulInName => "file name contained an unexpected NUL byte"
  | .notText => "stream did not contain valid UTF-8"
  | .other message => message

/-- What can be asked for. -/
inductive Demand where
  | readFile (path : String)
  /-- A file with this text, in place of what was there. -/
  | writeFile (path text : String)
  /-- The tree that the service draws of a grammar. -/
  | submit (s : Submission)
  | draws
  deriving DecidableEq, Repr

abbrev Demand.Reply : Demand → Type
  | .readFile _ => Except FileFault String
  | .writeFile _ _ => Except FileFault Unit
  | .submit _ => Outcome Json
  | .draws => Draws

/-- A result, or a demand and what becomes of its reply. -/
inductive Plan (α : Type) where
  | done (a : α)
  | ask (d : Demand) (resume : d.Reply → α)
  /-- The program breaks off here, and nothing comes after it. -/
  | crash

end LinearGrammar
