/-!
# What the file system refuses

The reasons for which an operation on a file or directory fails, and their texts.
-/

set_option autoImplicit false
namespace Resemblance

/-- Why an operation on a file or directory failed. -/
inductive FileError where
  /-- Nothing has this name. -/
  | notFound
  /-- Something other than the directory to be made has this name. -/
  | alreadyExists
  /-- A directory was needed. -/
  | notDirectory
  /-- A file was needed. -/
  | isDirectory
  /-- The file does not hold UTF-8 text. -/
  | notText
  /-- A path holds the character NUL. -/
  | badName
  /-- A path or a name on it has too many bytes. -/
  | nameTooLong
  deriving DecidableEq

/-- The text of a refusal, with the number the system gives it. -/
def FileError.message : FileError → String
  | .notFound => "No such file or directory (os error 2)"
  | .alreadyExists => "File exists (os error 17)"
  | .notDirectory => "Not a directory (os error 20)"
  | .isDirectory => "Is a directory (os error 21)"
  | .notText => "stream did not contain valid UTF-8"
  | .badName => "file name contained an unexpected NUL byte"
  | .nameTooLong => "File name too long (os error 36)"

end Resemblance
