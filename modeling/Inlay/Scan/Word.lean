import Inlay.Unicode.Class
import Inlay.Text.Units

/-!
The word after a run of blanks, as binding forms are made of.
-/

namespace Inlay.Scan

open Inlay.Unicode Inlay.Text

/-- A maximal word after a maximal run of blanks, neither of them empty, and what follows. -/
structure Word where
  gap : List Char
  text : List Char
  rest : List Char

/-- The qualifier that may stand between a binding keyword and the bound name. -/
def qualifier : List Char := ['m', 'u', 't']

def Word.next? (cs : List Char) : Option Word :=
  let gap := cs.takeWhile isBlank
  let tail := cs.dropWhile isBlank
  let text := tail.takeWhile isWord
  if gap = [] ∨ text = [] then none
  else some ⟨gap, text, tail.dropWhile isWord⟩

/-- Bytes from the start of the blanks to the end of the word. -/
def Word.size (w : Word) : Nat :=
  utf8Len w.gap + utf8Len w.text

theorem Word.eq_of_next? {cs : List Char} {w : Word} (h : Word.next? cs = some w) :
    cs = w.gap ++ (w.text ++ w.rest) := by
  simp only [Word.next?, Option.ite_none_left_eq_some, Option.some.injEq] at h
  obtain ⟨-, rfl⟩ := h
  simp

end Inlay.Scan
