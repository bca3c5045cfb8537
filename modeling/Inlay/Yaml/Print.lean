import Inlay.Yaml.Text
import Inlay.Yaml.Number

/-!
Writing a text as a scalar. A text with a line feed becomes a literal block, other texts are
written plain if that reads back as the same text and in single quotes otherwise. Double quotes,
which can write anything, come last.
-/

namespace Inlay.Yaml

inductive Style
  | plain
  | single
  | double
  | literal
  deriving DecidableEq

/-- A character that only an escape can write. A line feed is not one. -/
def isSpecial (c : Char) : Bool :=
  let n := c.toNat
  !(n == 0x0A || (0x20 ≤ n && n ≤ 0x7E) || (0xA0 ≤ n && n ≠ 0xFEFF && n ≠ 0xFFFE && n ≠ 0xFFFF))

/-- A character that ends a line before the ways to do so are unified. -/
def endsLine (c : Char) : Bool :=
  isBreak c || c == '\r' || c == '\u0085'

def blankNext : List Char → Bool
  | [] => true
  | c :: _ => isSpace c || endsLine c || c == '\x00'

def spaceThenBreak : List Char → Bool
  | a :: b :: cs => (a == ' ' && endsLine b) || spaceThenBreak (b :: cs)
  | _ => false

def breakThenSpace : List Char → Bool
  | a :: b :: cs => (endsLine a && b == ' ') || breakThenSpace (b :: cs)
  | _ => false

def isPlainBar (c : Char) : Bool :=
  "#,[]\x7b\x7d&*!|>'\"%@\x60".toList.contains c

def startsAsMarker : List Char → Bool
  | '-' :: '-' :: '-' :: _ => true
  | '.' :: '.' :: '.' :: _ => true
  | _ => false

def startsAsIndicator : List Char → Bool
  | [] => false
  | c :: cs => isPlainBar c || ((c == '?' || c == ':' || c == '-') && blankNext cs)

/-- Does a colon before a blank or the end, or a hash after a blank, occur after `before`? -/
def holdsIndicator (before : Char) : List Char → Bool
  | [] => false
  | c :: cs =>
    (c == ':' && blankNext cs) || (c == '#' && blankNext [before]) || holdsIndicator c cs

def plainAllowed (cs : List Char) : Bool :=
  !(startsAsMarker cs || startsAsIndicator cs || holdsIndicator 'x' cs || cs.any isSpecial ||
    cs.any endsLine || cs.head? == some ' ' || cs.getLast? == some ' ')

def singleAllowed (cs : List Char) : Bool :=
  !(cs.any isSpecial || spaceThenBreak cs || breakThenSpace cs)

def literalAllowed (cs : List Char) : Bool :=
  !(cs.any isSpecial || spaceThenBreak cs || cs.getLast? == some ' ')

def styleOf (cs : List Char) : Style :=
  if cs.contains '\n' then if literalAllowed cs then .literal else .double
  else if !isAmbiguous cs && plainAllowed cs then .plain
  else if singleAllowed cs then .single
  else .double

def hexDigit (n : Nat) : Char :=
  if n < 10 then Char.ofNat ('0'.toNat + n) else Char.ofNat ('A'.toNat + (n - 10))

/-- The last `width` digits of a number in base sixteen. -/
def hexDigits : Nat → Nat → List Char
  | 0, _ => []
  | width + 1, n => hexDigits width (n / 16) ++ [hexDigit (n % 16)]

def escapeLetter? (c : Char) : Option Char :=
  match c with
  | '\x00' => some '0'
  | '\x07' => some 'a'
  | '\x08' => some 'b'
  | '\t' => some 't'
  | '\n' => some 'n'
  | '\x0b' => some 'v'
  | '\x0c' => some 'f'
  | '\r' => some 'r'
  | '\x1b' => some 'e'
  | '"' => some '"'
  | '\\' => some '\\'
  | '\u0085' => some 'N'
  | '\u2028' => some 'L'
  | '\u2029' => some 'P'
  | _ => none

def escapeDouble (c : Char) : List Char :=
  if isSpecial c || endsLine c || c == '"' || c == '\\' then
    match escapeLetter? c with
    | some l => ['\\', l]
    | none =>
      if c.toNat ≤ 0xFF then '\\' :: 'x' :: hexDigits 2 c.toNat
      else if c.toNat ≤ 0xFFFF then '\\' :: 'u' :: hexDigits 4 c.toNat
      else '\\' :: 'U' :: hexDigits 8 c.toNat
  else [c]

def indentation (n : Nat) : List Char := List.replicate n ' '

/-- A text between single quotes: quotes are doubled, and a line is indented by `n`. `fresh` says
whether a line has just been started. -/
def printSingle (n : Nat) (fresh : Bool) : List Char → List Char
  | [] => if fresh then indentation n else []
  | c :: cs =>
    if isBreak c then c :: printSingle n true cs
    else
      (if fresh then indentation n else []) ++ (if c = '\'' then ['\'', '\''] else [c]) ++
        printSingle n false cs

/-- The lines of a literal block, indented by `n` unless empty. `fresh` says whether a line has
just been started. -/
def printLines (n : Nat) (fresh : Bool) : List Char → List Char
  | [] => []
  | c :: cs =>
    if isBreak c then c :: printLines n true cs
    else (if fresh then indentation n else []) ++ c :: printLines n false cs

def indentStep : Nat := 2

/-- The indentation digit of a literal block: there if the first line starts with a space or is
empty. -/
def indentMark (cs : List Char) : List Char :=
  if cs.head?.any fun c => c == ' ' || isBreak c then ['2'] else []

def chompMark (cs : List Char) : List Char :=
  match cs.reverse with
  | [] => ['-']
  | c :: cs =>
    if !isBreak c then ['-']
    else
      match cs with
      | [] => ['+']
      | d :: _ => if isBreak d then ['+'] else []

/-- A text as the value of a key, up to the start of the next line; its own lines are indented
by `n`. -/
def printScalar (n : Nat) (cs : List Char) : List Char :=
  match styleOf cs with
  | .plain => cs ++ ['\n']
  | .single => '\'' :: printSingle n false cs ++ ['\'', '\n']
  | .double => '"' :: cs.flatMap escapeDouble ++ ['"', '\n']
  | .literal =>
    '|' :: indentMark cs ++ chompMark cs ++ '\n' :: printLines n true cs ++
      (if cs.getLast?.any isBreak then [] else ['\n'])

end Inlay.Yaml
