import Inlay.Scan.Shape
import Inlay.Scan.Leftmost
import Inlay.Scan.Declaration
import Inlay.Scan.Parens
import Inlay.Scan.Binding
import Inlay.Position

/-!
The first shape that occurs in a text, and the anchors of the names that it binds.
-/

namespace Inlay.Scan

open Inlay.Text

def hasArrow : List Char → Bool
  | '=' :: '>' :: _ => true
  | _ :: cs => hasArrow cs
  | [] => false

/-- The anchors of the leftmost group that `read` finds. -/
def groupAnchors? (read : List Char → Option (Nat × List Char)) (cs : List Char) :
    Option (List Nat) :=
  (leftmost (fun _ => read) none 0 cs).map fun (start, lead, t) => bindings (start + lead) t

/-- The anchors of the leftmost occurrence of a shape, as byte offsets into the text. -/
def Shape.anchors? : Shape → List Char → Option (List Nat)
  | .declaration, cs => (leftmost declarationAt none 0 cs).map fun (start, n) => [start + n]
  | .closure, cs => groupAnchors? closureAt cs
  | .tuple, cs => groupAnchors? tupleAt cs
  | .matchArm, cs => if hasArrow cs then groupAnchors? matchArmAt cs else none

structure Resolution where
  shape : Shape
  anchors : List Nat
  deriving DecidableEq

/-- The first shape in order of trial that occurs with at least one anchor. -/
def resolve? (cs : List Char) : Option Resolution :=
  Shape.all.findSome? fun s =>
    match s.anchors? cs with
    | some (a :: as) => some ⟨s, a :: as⟩
    | _ => none

/-- The positions of what `resolve?` finds in a text that starts at column `base` of a line. -/
def resolvePositions (line : Nat) (cs : List Char) (base : Nat) : List Position :=
  match resolve? cs with
  | some r => r.anchors.map fun a => ⟨line, base + utf16Len (takeBytes a cs)⟩
  | none => []

end Inlay.Scan
