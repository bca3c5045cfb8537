import Inlay.Text.Units

/-!
The leftmost place of a text where something can be read.
-/

namespace Inlay.Scan

open Inlay.Text

/-- The first place where `read` succeeds, given the character before the place and the text
from it on; the place is a byte offset, counted from `offset`. -/
def leftmost {α : Type} (read : Option Char → List Char → Option α) (before : Option Char)
    (offset : Nat) (cs : List Char) : Option (Nat × α) :=
  match read before cs with
  | some a => some (offset, a)
  | none =>
    match cs with
    | [] => none
    | c :: cs => leftmost read (some c) (offset + c.utf8Size) cs

variable {α : Type} {read : Option Char → List Char → Option α}

theorem leftmost_nil (b : Option Char) (o : Nat) :
    leftmost read b o [] = (read b []).map (o, ·) := by
  unfold leftmost
  cases read b [] <;> rfl

theorem leftmost_cons (b : Option Char) (o : Nat) (c : Char) (cs : List Char) :
    leftmost read b o (c :: cs) =
      match read b (c :: cs) with
      | some a => some (o, a)
      | none => leftmost read (some c) (o + c.utf8Size) cs := by
  rw [leftmost]

end Inlay.Scan
