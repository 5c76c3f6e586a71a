/-
SettingProfiles.Files.Failure — why a step on files fails.

The causes that this library tells apart or meets in its own model of files
are named; any other reason a machine may give is kept as its text. Where
the cause has a number among the error numbers of Linux, the message shows
it.
-/
namespace SettingProfiles

/-- Why a step on files fails. -/
inductive FileError where
  | notFound
  | alreadyExists
  | notDirectory
  | isDirectory
  | nameTooLong
  /-- The path holds the character NUL, which no name may hold. -/
  | nulInPath
  /-- The bytes of a file are not those of a text. -/
  | notText
  | other (reason : String)
  deriving DecidableEq

/-- The description of an error number, with the number. -/
def FileError.numbered (description : String) (number : Nat) : String :=
  description ++ " (os error " ++ toString number ++ ")"

def FileError.message : FileError → String
  | .notFound => numbered "No such file or directory" 2
  | .alreadyExists => numbered "File exists" 17
  | .notDirectory => numbered "Not a directory" 20
  | .isDirectory => numbered "Is a directory" 21
  | .nameTooLong => numbered "File name too long" 36
  | .nulInPath => "file name contained an unexpected NUL byte"
  | .notText => "stream did not contain valid UTF-8"
  | .other reason => reason

/-- The cause with an error number of Linux, described as given where it has no name
here. -/
def FileError.ofNumber (number : Nat) (description : String) : FileError :=
  match number with
  | 2 => .notFound
  | 17 => .alreadyExists
  | 20 => .notDirectory
  | 21 => .isDirectory
  | 36 => .nameTooLong
  | _ => .other (numbered description number)

end SettingProfiles
