import Inlay.Scan.Line
import Inlay.Text.Split

/-!
The binding sites of a document, line by line. No line influences another. Lines are numbered
without a bound, which agrees with 32-bit numbers below 2^32 lines.
-/

namespace Inlay.Scan

open Inlay.Text

/-- The sites of consecutive lines, the first of which has number `n`. -/
def linesSites (n : Nat) : List (List Char) → List Site
  | [] => []
  | line :: lines => lineSites n line ++ linesSites (n + 1) lines

/-- The sites of a document, by line and then from left to right. -/
def sites (text : String) : List Site :=
  linesSites 0 (split '\n' text.toList)

def positions (text : String) : List Position :=
  (sites text).map Site.position

@[simp] theorem linesSites_nil (n : Nat) : linesSites n [] = [] := rfl

@[simp] theorem linesSites_cons (n : Nat) (line : List Char) (lines : List (List Char)) :
    linesSites n (line :: lines) = lineSites n line ++ linesSites (n + 1) lines := rfl

theorem linesSites_append (n : Nat) (a b : List (List Char)) :
    linesSites n (a ++ b) = linesSites n a ++ linesSites (n + a.length) b := by
  induction a generalizing n with
  | nil => simp
  | cons l ls ih => simp [ih, Nat.add_assoc, Nat.add_comm 1]

end Inlay.Scan
