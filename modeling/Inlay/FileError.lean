/-!
What can go wrong with a file.
-/

namespace Inlay

/-- Why a file could not be used. -/
inductive FileError
  | notFound
  | exists
  | notDirectory
  | isDirectory
  | notText
  /-- Any other reason, in the words of the operating system. -/
  | other (message : String)
  deriving DecidableEq

def FileError.message : FileError → String
  | notFound => "No such file or directory (os error 2)"
  | .exists => "File exists (os error 17)"
  | notDirectory => "Not a directory (os error 20)"
  | isDirectory => "Is a directory (os error 21)"
  | notText => "stream did not contain valid UTF-8"
  | other message => message

end Inlay
