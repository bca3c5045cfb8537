import Inlay.Scan.Word
import Inlay.Text.Split

/-!
The names bound in a group: one for each part between commas that holds a word. The name is the
first word of the part, or the second one if the first is the qualifier and only blanks
stand between them; its anchor is the byte offset just past it.
-/

namespace Inlay.Scan

open Inlay.Unicode Inlay.Text

/-- Bytes up to the end of the name that a part binds. -/
def nameEnd? (part : List Char) : Option Nat :=
  let lead := part.takeWhile fun c => !isWord c
  let tail := part.dropWhile fun c => !isWord c
  let first := tail.takeWhile isWord
  if first = [] then none
  else
    let past := utf8Len lead + utf8Len first
    match Word.next? (tail.dropWhile isWord) with
    | some w => if first = qualifier then some (past + w.size) else some past
    | none => some past

/-- Anchors of parts that follow one another with one comma between, the first at `offset`. -/
def partAnchors (offset : Nat) : List (List Char) → List Nat
  | [] => []
  | part :: parts =>
    ((nameEnd? part).map (offset + ·)).toList ++ partAnchors (offset + utf8Len part + 1) parts

/-- The anchors of the names bound in `text`, which stands `offset` bytes into its line. -/
def bindings (offset : Nat) (text : List Char) : List Nat :=
  partAnchors offset (split ',' text)

@[simp] theorem partAnchors_nil (offset : Nat) : partAnchors offset [] = [] := rfl

@[simp] theorem partAnchors_cons (offset : Nat) (part : List Char) (parts : List (List Char)) :
    partAnchors offset (part :: parts) =
      ((nameEnd? part).map (offset + ·)).toList ++
        partAnchors (offset + utf8Len part + 1) parts := rfl

end Inlay.Scan
