import Inlay.Yaml.Fold

/-!
Block scalars. The header says which line breaks at the end are kept and perhaps how far the
text is indented; without the latter the first line that is not empty decides. In a folded scalar a
line feed between two lines that do not start with a blank becomes a space.
-/

namespace Inlay.Yaml

/-- Which line breaks at the end of a block scalar belong to it. -/
inductive Chomp
  | strip
  | clip
  | keep
  deriving DecidableEq

structure BlockHeader where
  chomp : Chomp
  /-- How far the text is indented below its parent, if that is said. -/
  indent : Option Nat

/-- A line of a stream: its text, what ends it, and the stream from its start. -/
structure Line where
  text : List Char
  stop : Option Char
  here : List Char

/-- The lines of a stream, the last of which has no end. -/
def linesOf : List Char → List Line
  | [] => [⟨[], none, []⟩]
  | c :: cs =>
    if isBreak c then ⟨[], some c, c :: cs⟩ :: linesOf cs
    else
      match linesOf cs with
      | [] => [⟨[c], none, c :: cs⟩]
      | l :: ls => ⟨c :: l.text, l.stop, c :: cs⟩ :: ls

def leadingSpaces (cs : List Char) : Nat :=
  (cs.takeWhile (· == ' ')).length

/-- The largest indentation of the empty lines in front and the line after them. A tab may not
follow the indentation. -/
def detectIndent (most : Nat) : List Line → Option Nat
  | [] => some most
  | l :: ls =>
    let n := leadingSpaces l.text
    match l.text.drop n, l.stop with
    | [], some _ => detectIndent (max most n) ls
    | c :: _, _ => if c = '\t' then none else some (max most n)
    | [], none => some (max most n)

/-- A line of a block scalar without its indentation, and what ends it. -/
structure Piece where
  text : List Char
  stop : Option Char

/-- The pieces of a block scalar indented by `n`, from line number `line` of the stream on, with
the place where it ends and what follows. -/
def scanPieces (n line : Nat) : List Line → Option (List Piece × Mark × List Char)
  | [] => some ([], ⟨line, 0⟩, [])
  | l :: ls =>
    let k := min n (leadingSpaces l.text)
    match l.text.drop k, l.stop with
    | [], some b =>
      (scanPieces n (line + 1) ls).map fun (ps, rest) => (⟨[], some b⟩ :: ps, rest)
    | [], none => some ([], ⟨line, k⟩, [])
    | c :: t, stop =>
      if k < n then
        if c = '\t' then none else some ([], ⟨line, k⟩, l.here.drop k)
      else
        match stop with
        | none => some ([⟨c :: t, none⟩], ⟨line, l.text.length⟩, [])
        | some b =>
          (scanPieces n (line + 1) ls).map fun (ps, rest) => (⟨c :: t, some b⟩ :: ps, rest)

/-- The text of pieces, the break that ends the last full line, and the breaks after it.
`last` and `blank` are that break and whether that line starts with a blank, for the pieces
before, and `breaks` are the breaks of the empty lines since. -/
def joinPieces (folded : Bool) (last : Option Char) (blank : Bool) (breaks : List Char) :
    List Piece → List Char × List Char × List Char
  | [] => ([], last.toList, breaks)
  | p :: ps =>
    match p.text with
    | [] => joinPieces folded last blank (breaks ++ p.stop.toList) ps
    | c :: t =>
      let joint :=
        if folded && last == some '\n' && !blank && !isSpace c then
          if breaks = [] then [' '] else []
        else last.toList
      let (text, tail) := joinPieces folded p.stop (isSpace c) [] ps
      (joint ++ breaks ++ (c :: t) ++ text, tail)

def blockText (folded : Bool) (chomp : Chomp) (ps : List Piece) : List Char :=
  let (text, last, breaks) := joinPieces folded none false [] ps
  match chomp with
  | .strip => text
  | .clip => text ++ last
  | .keep => text ++ last ++ breaks

def chomp? (c : Char) : Option Chomp :=
  if c = '-' then some .strip else if c = '+' then some .keep else none

def indentDigit? (c : Char) : Option Nat :=
  if '1' ≤ c ∧ c ≤ '9' then some (c.toNat - '0'.toNat) else none

/-- The header in front and what follows it. The two parts may come in either order, and a zero
is refused because what follows a header must be a gap or a comment. -/
def blockHeader : List Char → BlockHeader × List Char
  | c :: d :: cs =>
    match chomp? c, indentDigit? d with
    | some x, some n => (⟨x, some n⟩, cs)
    | some x, none => (⟨x, none⟩, d :: cs)
    | none, _ =>
      match indentDigit? c, chomp? d with
      | some n, some x => (⟨x, some n⟩, cs)
      | some n, none => (⟨.clip, some n⟩, d :: cs)
      | none, _ => (⟨.clip, none⟩, c :: d :: cs)
  | [c] =>
    match chomp? c, indentDigit? c with
    | some x, _ => (⟨x, none⟩, [])
    | none, some n => (⟨.clip, some n⟩, [])
    | none, none => (⟨.clip, none⟩, [c])
  | [] => (⟨.clip, none⟩, [])

/-- The lines below a header, after blanks and a comment. At the end of the stream there are
none. -/
def linesBelow? (cs : List Char) : Option (List Line) :=
  match linesOf cs with
  | l :: ls =>
    match l.text.dropWhile isSpace with
    | [] => some ls
    | c :: _ => if c = '#' then some ls else none
  | [] => none

/-- The block scalar whose header starts in front. `floor` is the least column of what belongs to
the enclosing collection. -/
def scanBlock (folded : Bool) (floor : Nat) (m : Mark) (cs : List Char) : Option Scanned := do
  let (header, below) := blockHeader cs
  let lines ← linesBelow? below
  let n ←
    match header.indent with
    | some n => pure (floor - 1 + n)
    | none => (detectIndent 0 lines).map fun n => max n (max floor 1)
  let (pieces, mark, rest) ← scanPieces n (m.line + 1) lines
  pure ⟨blockText folded header.chomp pieces, mark, rest⟩

end Inlay.Yaml
