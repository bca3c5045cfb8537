import Inlay.FileError
import Inlay.FilePath
import Inlay.Table

/-!
Directories and files. An entry is known by the names on the way to it from the root.
-/

namespace Inlay

inductive Entry
  | directory
  | file (bytes : ByteArray)

/-- A tree of files and the directory that relative paths start from. -/
structure FileTree where
  entries : Table (List String) Entry
  current : List String

namespace FileTree

/-- What is at a place; the root is always there. -/
def at? (t : FileTree) (place : List String) : Option Entry :=
  if place = [] then some .directory else t.entries.find? place

def set (t : FileTree) (place : List String) (e : Entry) : FileTree :=
  { t with entries := t.entries.insert place e }

@[simp] theorem at?_root (t : FileTree) : t.at? [] = some .directory := rfl

/-- Setting a place changes what is there and nothing else. The root cannot be set. -/
theorem at?_set (t : FileTree) (place other : List String) (e : Entry) :
    (t.set place e).at? other =
      if other = [] then some .directory else if other = place then some e else t.at? other := by
  unfold at?
  split
  · rfl
  · simp [set]

/-- The directory that names lead to from a place. -/
def walk (t : FileTree) (place : List String) : List String → Except FileError (List String)
  | [] => .ok place
  | n :: ns =>
    if n = "." then t.walk place ns
    else if n = ".." then t.walk place.dropLast ns
    else
      match t.at? (place ++ [n]) with
      | none => .error .notFound
      | some (.file _) => .error .notDirectory
      | some .directory => t.walk (place ++ [n]) ns

/-- The place where a path starts. -/
def origin (t : FileTree) (path : String) : List String :=
  if FilePath.isAbsolute path then [] else t.current

/-- The place that a path names. Only its directory has to be there. There is no place if the last
name stands for a directory by itself. -/
def locate (t : FileTree) (path : String) : Except FileError (Option (List String)) :=
  if path = "" then .error .notFound
  else
    let names := FilePath.names path
    match names.getLast? with
    | none => .ok none
    | some n => do
      let place ← t.walk (t.origin path) names.dropLast
      if n = "." ∨ n = ".." then pure none else pure (some (place ++ [n]))

def isDirectory (t : FileTree) (path : String) : Bool :=
  path ≠ "" && (t.walk (t.origin path) (FilePath.names path)).toOption.isSome

def read (t : FileTree) (path : String) : Except FileError ByteArray := do
  match ← t.locate path with
  | none => .error .isDirectory
  | some place =>
    match t.at? place with
    | none => .error .notFound
    | some .directory => .error .isDirectory
    | some (.file bytes) =>
      if FilePath.endsWithSlash path then .error .notDirectory else .ok bytes

def readText (t : FileTree) (path : String) : Except FileError String := do
  match String.fromUTF8? (← t.read path) with
  | some s => .ok s
  | none => .error .notText

/-- Writes a file, which may be new, in a directory that is there. -/
def write (t : FileTree) (path : String) (bytes : ByteArray) : Except FileError FileTree := do
  match ← t.locate path with
  | none => .error .isDirectory
  | some place =>
    if FilePath.endsWithSlash path then .error .isDirectory
    else
      match t.at? place with
      | some .directory => .error .isDirectory
      | _ => .ok (t.set place (.file bytes))

def remove (t : FileTree) (path : String) : Except FileError FileTree := do
  match ← t.locate path with
  | none => .error .isDirectory
  | some place =>
    match t.at? place with
    | none => .error .notFound
    | some .directory => .error .isDirectory
    | some (.file _) => .ok { t with entries := t.entries.erase place }

/-- Makes a new directory in one that is there. -/
def makeDirectory (t : FileTree) (path : String) : Except FileError FileTree := do
  match ← t.locate path with
  | none => .error .exists
  | some place =>
    match t.at? place with
    | some _ => .error .exists
    | none => .ok (t.set place .directory)

/-- Makes the directory at the first path, after those above it, which follow, where they are
missing. What has been made before a failure stays. -/
def makeChain (t : FileTree) : List String → FileTree × Option FileError
  | [] => (t, some (.other "failed to create whole tree"))
  | path :: above =>
    if path = "" then (t, none)
    else
      match t.makeDirectory path with
      | .ok t => (t, none)
      | .error .notFound =>
        match t.makeChain above with
        | (t, some e) => (t, some e)
        | (t, none) =>
          match t.makeDirectory path with
          | .ok t => (t, none)
          | .error e => (t, if t.isDirectory path then none else some e)
      | .error e => (t, if t.isDirectory path then none else some e)

def makeDirectories (t : FileTree) (path : String) : FileTree × Option FileError :=
  t.makeChain (path :: FilePath.above path)

/-- Makes the directory that a path is in. A path without one needs none. -/
def makeParent (t : FileTree) (path : String) : FileTree × Option (String × FileError) :=
  match FilePath.parent? path with
  | none => (t, none)
  | some parent =>
    if parent = "" then (t, none)
    else
      let (t, e) := t.makeDirectories parent
      (t, e.map (parent, ·))

end FileTree

end Inlay
