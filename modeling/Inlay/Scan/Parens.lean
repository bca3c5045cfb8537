import Inlay.Scan.Group
import Inlay.Text.Units

/-!
The three places of a binding group: between bars, in parentheses after a binding head, and in
parentheses before an arrow. Each reader gives the bytes before the interior of the group, and
that interior.
-/

namespace Inlay.Scan

open Inlay.Unicode Inlay.Text

def parenGroup? : List Char → Option (List Char × List Char)
  | '(' :: cs => Group.before? ')' cs
  | _ => none

/-- A group between two bars. -/
def closureAt : List Char → Option (Nat × List Char)
  | '|' :: cs => (Group.before? '|' cs).map fun g => (1, g.1)
  | _ => none

/-- A group in parentheses, then closing parentheses and blanks, then an arrow. -/
def matchArmAt (cs : List Char) : Option (Nat × List Char) := do
  let (t, rest) ← parenGroup? cs
  match rest.dropWhile fun c => c == ')' || isBlank c with
  | '=' :: '>' :: _ => some (1, t)
  | _ => none

/-- The last group in parentheses that opens before the first equals sign, or else `best`. -/
def lastGroup (offset : Nat) (best : Option (Nat × List Char)) :
    List Char → Option (Nat × List Char)
  | [] => best
  | c :: cs =>
    if c = '=' then best
    else
      lastGroup (offset + c.utf8Size)
        (((parenGroup? (c :: cs)).map fun g => (offset + 1, g.1)).or best) cs

def spacedGroup (offset : Nat) (cs : List Char) : Option (Nat × List Char) :=
  let gap := cs.takeWhile isBlank
  if gap = [] then none
  else (parenGroup? (cs.dropWhile isBlank)).map fun g => (offset + utf8Len gap + 1, g.1)

/-- A group in parentheses after a binding head. After a conditional head there is at least one
character before the parenthesis and no equals sign, and the last group possible is taken. -/
def tupleAt : List Char → Option (Nat × List Char)
  | 'l' :: 'e' :: 't' :: cs => spacedGroup 3 cs
  | 'f' :: 'o' :: 'r' :: cs => spacedGroup 3 cs
  | 'i' :: 'f' :: ' ' :: 'l' :: 'e' :: 't' :: c :: cs =>
    if c = '=' then none else lastGroup (6 + c.utf8Size) none cs
  | _ => none

end Inlay.Scan
