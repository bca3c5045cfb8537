import Inlay.Config.Layer
import Inlay.Event
import Inlay.FileError

/-!
Configuration files: where they are and how they are read.
-/

namespace Inlay.Config

/-- A way to read text files. -/
abbrev Reader := String → Except FileError String

def joinPath (base path : String) : String :=
  if base = "" ∨ base.endsWith "/" then base ++ path else base ++ "/" ++ path

def projectFile : String := ".bindhints/config.yaml"

/-- The file of the user, below the home directory. -/
def userFile (home : String) : String :=
  joinPath (joinPath home ".bindhints") "config.yaml"

namespace Format

variable (y : Format)

/-- What a file defines. One that cannot be read defines nothing; one that cannot be parsed defines
nothing either, which is recorded. -/
def readLayer (read : Reader) (path : String) : Layer × List Event :=
  match read path with
  | .error _ => ({}, [])
  | .ok text =>
    match y.parse text with
    | .ok layer => (layer, [])
    | .error _ => ({}, [.log (.fileIgnored path)])

/-- The settings of files laid over the given ones, the last file on top. -/
def loadFiles (read : Reader) (s : Settings) : List String → Settings × List Event
  | [] => (s, [])
  | path :: paths =>
    let (layer, events) := y.readLayer read path
    let (s, later) := loadFiles read (s.over layer) paths
    (s, events ++ later)

def loadFrom (read : Reader) (path : String) : Settings × List Event :=
  y.loadFiles read {} [path]

/-- The settings of the user, if there is a home directory, and of the project. -/
def load (read : Reader) (home : Option String) : Settings × List Event :=
  y.loadFiles read {} ((home.map userFile).toList ++ [projectFile])

end Format

end Inlay.Config
