import Inlay.Config.Layer
import Inlay.FileTree

/-!
Saving settings: the directory of the file is made first where it is missing, then the settings are
printed, and then the file is written.
-/

namespace Inlay.Config

inductive SaveError
  | create (directory : String) (cause : FileError)
  /-- The settings could not be printed. -/
  | serialize (cause : String)
  | write (path : String) (cause : FileError)
  deriving DecidableEq

def SaveError.message : SaveError → String
  | create directory cause => s!"Failed to create {directory}: {cause.message}"
  | serialize cause => s!"YAML serialize error: {cause}"
  | write path cause => s!"Failed to write {path}: {cause.message}"

/-- Writes the settings to a file. Directories made on the way stay even if that fails. -/
def Format.save (y : Format) (t : FileTree) (path : String) (s : Settings) :
    FileTree × Option SaveError :=
  match t.makeParent path with
  | (t, some (parent, e)) => (t, some (.create parent e))
  | (t, none) =>
    match y.print s with
    | .error cause => (t, some (.serialize cause))
    | .ok text =>
      match t.write path text.toUTF8 with
      | .ok t => (t, none)
      | .error e => (t, some (.write path e))

end Inlay.Config
