import Whittle.Disk.Path
import Whittle.Text.Numeral

/-!
# Causes of failed file operations

`Errno` is a refusal by the system, with its number and its wording, or a refusal before the system
is asked: a NUL, which ends a text there, can stand in no name and in no word of a command, and that
refusal has no number. `IoError` adds the refusals that only arise above it, and the two places where
a failure is reported together with the paths involved.
-/

namespace Whittle

inductive Errno where
  | notFound
  | badExecutable
  | badStream
  | permissionDenied
  | alreadyExists
  | notDirectory
  | isDirectory
  | invalidArgument
  | nameTooLong
  | notEmpty
  | tooManyLinks
  | busy
  | acrossDevices
  | nulInName
  | nulInCommand
  deriving DecidableEq, Repr

namespace Errno

/-- The number of a refusal by the system itself. -/
def number : Errno → Option Nat
  | notFound => some 2
  | badExecutable => some 8
  | badStream => some 9
  | permissionDenied => some 13
  | busy => some 16
  | alreadyExists => some 17
  | acrossDevices => some 18
  | notDirectory => some 20
  | isDirectory => some 21
  | invalidArgument => some 22
  | nameTooLong => some 36
  | notEmpty => some 39
  | tooManyLinks => some 40
  | nulInName => none
  | nulInCommand => none

def wording : Errno → String
  | notFound => "No such file or directory"
  | badExecutable => "Exec format error"
  | badStream => "Bad file descriptor"
  | permissionDenied => "Permission denied"
  | busy => "Device or resource busy"
  | alreadyExists => "File exists"
  | notDirectory => "Not a directory"
  | isDirectory => "Is a directory"
  | invalidArgument => "Invalid argument"
  | nameTooLong => "File name too long"
  | notEmpty => "Directory not empty"
  | tooManyLinks => "Too many levels of symbolic links"
  | acrossDevices => "Invalid cross-device link"
  | nulInName => "file name contained an unexpected NUL byte"
  | nulInCommand => "nul byte found in provided data"

def message (e : Errno) : String :=
  match e.number with
  | some n => e.wording ++ " (os error " ++ Text.natText n ++ ")"
  | none => e.wording

end Errno

inductive IoError where
  | system (cause : Errno)
  /-- A file read as text is not UTF-8. -/
  | notText
  /-- The source of a copy is not a regular file. -/
  | notRegular
  /-- A directory could not be made, and neither it nor an ancestor exists to start from. -/
  | noAncestor
  | makingWorkspace (dir : Path) (cause : IoError)
  | copying (source target : Path) (cause : IoError)
  deriving DecidableEq, Repr

namespace IoError

def message : IoError → String
  | system cause => cause.message
  | notText => "stream did not contain valid UTF-8"
  | notRegular => "the source path is neither a regular file nor a symlink to a regular file"
  | noAncestor => "failed to create whole tree"
  | makingWorkspace dir cause =>
    "Failed to create workspace directory " ++ dir.text ++ ": " ++ cause.message
  | copying source target cause =>
    "Failed to copy " ++ source.text ++ " to " ++ target.text ++ ": " ++ cause.message

/-- Whether the system said that nothing is there. -/
def isNotFound : IoError → Bool
  | system .notFound => true
  | _ => false

end IoError

end Whittle
