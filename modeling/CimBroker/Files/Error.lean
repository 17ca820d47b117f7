/-!
# Why a file operation fails

The failures that the file store can report. Most are refusals of the
operating system, whose message is its wording followed by the error
number; a path holding a NUL character is refused before the system is
asked, and a secret file that is not a regular file is refused by the
reader itself.
-/

namespace CimBroker.Files

/-- A failed file operation. -/
inductive IoError where
  /-- A directory on the way, or the file itself, does not exist. -/
  | notFound
  /-- The file to create exists already. -/
  | alreadyExists
  /-- A part of the path that must be a directory is not one. -/
  | notADirectory
  /-- The path names a directory where a file is needed. -/
  | isADirectory
  /-- Symbolic links nest too deep to resolve. -/
  | tooManyLinks
  /-- A name of the path, or the whole path, is longer than the system allows. -/
  | nameTooLong
  /-- The path holds a NUL character, which no system path can. -/
  | nulInName
  /-- The path names something other than a regular file. -/
  | notRegularFile
deriving DecidableEq, Repr

/-- The operating system's error number of a refusal, if the system refused. -/
def IoError.osCode? : IoError → Option Nat
  | .notFound => some 2
  | .alreadyExists => some 17
  | .notADirectory => some 20
  | .isADirectory => some 21
  | .tooManyLinks => some 40
  | .nameTooLong => some 36
  | .nulInName | .notRegularFile => none

/-- The message of a failure: a system refusal's wording is followed by its
error number. -/
def IoError.message (e : IoError) : String :=
  let text := match e with
    | .notFound => "No such file or directory"
    | .alreadyExists => "File exists"
    | .notADirectory => "Not a directory"
    | .isADirectory => "Is a directory"
    | .tooManyLinks => "Too many levels of symbolic links"
    | .nameTooLong => "File name too long"
    | .nulInName => "file name contained an unexpected NUL byte"
    | .notRegularFile => "local authentication file is not a regular file"
  match e.osCode? with
  | some n => text ++ " (os error " ++ toString n ++ ")"
  | none => text

end CimBroker.Files
