import Inlay.Yaml.Text

/-!
Gaps inside a scalar. Blanks within a line are kept, blanks around a line break are not; a
single line feed becomes a space, and of several the first is dropped.
-/

namespace Inlay.Yaml

/-- A scalar that has been read, where it ends and what follows. -/
structure Scanned where
  text : List Char
  mark : Mark
  rest : List Char

def Scanned.push (front : List Char) (s : Scanned) : Scanned :=
  { s with text := front ++ s.text }

inductive Gap
  /-- Blanks within a line, or nothing. -/
  | inline (blanks : List Char)
  /-- The first line break, if it was not escaped, and the later ones. -/
  | broken (first : Option Char) (more : List Char)

namespace Gap

def none : Gap := inline []

def extend (g : Gap) (c : Char) : Gap :=
  match g with
  | inline blanks => if isBreak c then broken (some c) [] else inline (blanks ++ [c])
  | broken first more => broken first (if isBreak c then more ++ [c] else more)

def isEmpty : Gap → Bool
  | inline [] => true
  | _ => false

def isBroken : Gap → Bool
  | inline _ => false
  | broken _ _ => true

/-- What the gap stands for. -/
def text : Gap → List Char
  | inline blanks => blanks
  | broken (some c) more => if c = '\n' then (if more = [] then [' '] else more) else c :: more
  | broken Option.none more => more

@[simp] theorem text_none : none.text = [] := rfl

end Gap

end Inlay.Yaml
