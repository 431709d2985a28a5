/-!
# Why a file operation fails

The causes that a file system may give, with their wording. Each cause that the system itself numbers
is shown with its number.
-/

namespace UtilityCss

/-- Why a file operation fails. -/
inductive FileError where
  | notFound
  | busy
  | alreadyExists
  | notDirectory
  | isDirectory
  | nameTooLong
  /-- A path holds the character that ends names. -/
  | nulInName
  /-- A file that was read as text is none. -/
  | notText
  /-- A directory has no parent in which it could be made. -/
  | noParent
deriving DecidableEq, Repr

namespace FileError

/-- The number that the system gives to a cause. -/
def number? : FileError → Option Nat
  | notFound      => some 2
  | busy          => some 16
  | alreadyExists => some 17
  | notDirectory  => some 20
  | isDirectory   => some 21
  | nameTooLong   => some 36
  | _             => none

def reason : FileError → String
  | notFound      => "No such file or directory"
  | busy          => "Device or resource busy"
  | alreadyExists => "File exists"
  | notDirectory  => "Not a directory"
  | isDirectory   => "Is a directory"
  | nameTooLong   => "File name too long"
  | nulInName     => "file name contained an unexpected NUL byte"
  | notText       => "stream did not contain valid UTF-8"
  | noParent      => "failed to create whole tree"

/-- The wording of a cause. -/
def message (e : FileError) : String :=
  match e.number? with
  | some n => e.reason ++ " (os error " ++ toString n ++ ")"
  | none   => e.reason

end FileError

end UtilityCss
