import Inlay.Scan.Word

/-!
A single name after a binding keyword that starts a word, with a space, a colon or an equals
sign right after the name.
-/

namespace Inlay.Scan

open Inlay.Unicode Inlay.Text

/-- What follows the binding keyword in front. -/
def afterKeyword? : List Char → Option (List Char)
  | 'l' :: 'e' :: 't' :: rest => some rest
  | 'f' :: 'o' :: 'r' :: rest => some rest
  | _ => none

/-- Does a character come next that may end a declared name? -/
def isDelimited : List Char → Bool
  | c :: _ => c == ' ' || c == ':' || c == '='
  | [] => false

def insideWord (before : Option Char) : Bool :=
  before.any isWord

/-- Bytes from the keyword in front to the end of the declared name. A qualifier is passed over
if a delimited name follows it, and is itself the name otherwise. -/
def declarationAt (before : Option Char) (cs : List Char) : Option Nat :=
  if insideWord before then none
  else do
    let w ← Word.next? (← afterKeyword? cs)
    let plain := if isDelimited w.rest then some (3 + w.size) else none
    if w.text = qualifier then
      match Word.next? w.rest with
      | some v => if isDelimited v.rest then some (3 + w.size + v.size) else plain
      | none => plain
    else plain

end Inlay.Scan
