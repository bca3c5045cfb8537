import Inlay.Scan.Resolve

/-!
The binding sites of one line: comments are cut off, implementation headers give nothing, and
what is left is resolved again and again, each time from the last anchor on.
-/

namespace Inlay.Scan

open Inlay.Unicode Inlay.Text

/-- A position that deserves a hint, and the shape that binds the name in front of it. -/
structure Site where
  position : Position
  shape : Shape
  deriving DecidableEq

def beforeSlashes : List Char → List Char
  | '/' :: '/' :: _ => []
  | c :: cs => c :: beforeSlashes cs
  | [] => []

/-- The code of a line: what precedes the first pair of slashes, and in that the first hash.
Quotes do not protect either of them. -/
def stripComment (line : List Char) : List Char :=
  (beforeSlashes line).takeWhile (· != '#')

/-- Does the line open an implementation block? The keyword must be a whole word. -/
def isImplHeader (code : List Char) : Bool :=
  match code.dropWhile isBlank with
  | 'i' :: 'm' :: 'p' :: 'l' :: rest => !rest.head?.any fun c => isAlphanumeric c || c == '_'
  | _ => false

/-- The sites of code that starts at column `column` of a line. -/
def codeSites (line column : Nat) (code : List Char) : List Site :=
  match resolve? code with
  | none => []
  | some r =>
    match r.anchors.getLast? with
    | none => []
    | some last =>
      let found := r.anchors.map fun a =>
        { position := ⟨line, column + utf16Len (takeBytes a code)⟩, shape := r.shape : Site }
      if (dropBytes last code).length < code.length then
        found ++ codeSites line (column + utf16Len (takeBytes last code)) (dropBytes last code)
      else found
termination_by code.length

def lineSites (number : Nat) (line : List Char) : List Site :=
  let code := stripComment line
  if isImplHeader code then [] else codeSites number 0 code

def linePositions (number : Nat) (line : List Char) : List Position :=
  (lineSites number line).map Site.position

end Inlay.Scan
