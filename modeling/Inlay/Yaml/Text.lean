/-!
The characters of a YAML stream: which ones may occur, which end a line, and where a place in the
stream is.
-/

namespace Inlay.Yaml

def isAllowed (c : Char) : Bool :=
  let n := c.toNat
  n == 0x09 || n == 0x0A || n == 0x0D || (0x20 ≤ n && n ≤ 0x7E) || n == 0x85 ||
    (0xA0 ≤ n && n ≤ 0xD7FF) || (0xE000 ≤ n && n ≤ 0xFFFD) || 0x10000 ≤ n

/-- One line feed for each way to end a line, the two separators of Unicode apart. -/
def unifyBreaks : List Char → List Char
  | [] => []
  | '\r' :: '\n' :: cs => '\n' :: unifyBreaks cs
  | c :: cs => (if c = '\r' ∨ c = '\u0085' then '\n' else c) :: unifyBreaks cs

/-- A character that ends a line once the ways to do so are unified. -/
def isBreak (c : Char) : Bool :=
  c == '\n' || c == '\u2028' || c == '\u2029'

def isSpace (c : Char) : Bool :=
  c == ' ' || c == '\t'

def isGap (c : Char) : Bool :=
  isSpace c || isBreak c

def gapNext : List Char → Bool
  | [] => true
  | c :: _ => isGap c

/-- Does a document marker come next? It must stand at the start of a line. -/
def markerNext : List Char → Bool
  | '-' :: '-' :: '-' :: cs => gapNext cs
  | '.' :: '.' :: '.' :: cs => gapNext cs
  | _ => false

def byteOrderMark : Char := '\ufeff'

/-- A letter, a digit, a hyphen or an underscore of ASCII. -/
def isNameChar (c : Char) : Bool :=
  ('a' ≤ c && c ≤ 'z') || ('A' ≤ c && c ≤ 'Z') || ('0' ≤ c && c ≤ '9') || c == '-' || c == '_'

structure Mark where
  line : Nat
  column : Nat
  deriving DecidableEq

def Mark.next (m : Mark) (c : Char) : Mark :=
  if isBreak c then ⟨m.line + 1, 0⟩ else ⟨m.line, m.column + 1⟩

def Mark.after (m : Mark) (cs : List Char) : Mark :=
  cs.foldl Mark.next m

@[simp] theorem Mark.after_nil (m : Mark) : m.after [] = m := rfl

@[simp] theorem Mark.after_cons (m : Mark) (c : Char) (cs : List Char) :
    m.after (c :: cs) = (m.next c).after cs := rfl

end Inlay.Yaml
