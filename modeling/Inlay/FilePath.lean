import Inlay.Text.Split

/-!
Paths as texts with slashes, and the directories above them.

Empty parts of a path do not count, nor does a dot unless a relative path starts with it.
-/

namespace Inlay.FilePath

open Text

/-- The parts between slashes. -/
def parts (path : String) : List (List Char) := split '/' path.toList

def isAbsolute (path : String) : Bool := path.toList.head? == some '/'

def endsWithSlash (path : String) : Bool := path.toList.getLast? == some '/'

/-- The names that lead from one directory to the next, dots included. -/
def names (path : String) : List String :=
  ((parts path).filter fun p => !p.isEmpty).map String.ofList

/-- The path up to each of its parts that counts, the longest first; `before` is the path before
the given parts, the last of its parts first. -/
def prefixes (before : List (List Char)) : List (List Char) → List (List (List Char))
  | [] => []
  | p :: ps =>
    let here := p :: before
    let deeper := prefixes here ps
    if p = [] ∨ (p = ['.'] ∧ before ≠ []) then deeper else deeper ++ [here]

/-- The directories above a path, the nearest first: down to the root for an absolute path, and to
the empty path, which stands for the current directory, for a relative one. -/
def above (path : String) : List String :=
  match prefixes [] (parts path) with
  | [] => []
  | _ :: ps =>
    ps.map (fun p => String.ofList (join '/' p.reverse)) ++ [if isAbsolute path then "/" else ""]

def parent? (path : String) : Option String := (above path).head?

end Inlay.FilePath
