import Inlay.Yaml.Plain
import Inlay.Yaml.Quoted
import Inlay.Yaml.Block
import Inlay.Yaml.Property

/-!
From a stream to its tokens.

Block collections have no brackets: their starts and ends follow from columns. A mapping key is
recognised late, when the colon after it comes, so the place where a key may have started is
remembered and the tokens for it are put in there. Such a key stays within one line.
-/

namespace Inlay.Yaml

/-- A place where a mapping key may have started. -/
structure KeyStart where
  /-- The number of tokens before it. -/
  index : Nat
  mark : Mark
  /-- Must a colon follow? It must where only a key can stand. -/
  required : Bool

/-- Is the start of a key too far back for a token at `m`? -/
def KeyStart.isStale (m : Mark) (k : KeyStart) : Bool :=
  decide (k.mark.line < m.line) || decide (k.mark.column + 1024 < m.column)

/-- The state between two tokens. -/
structure Lexer where
  rest : List Char
  mark : Mark
  /-- The columns of the open block collections, the innermost first. -/
  indents : List Nat
  /-- May a key start here? -/
  keyAllowed : Bool
  /-- The possible key of the innermost flow collection, or of the block outside all of them. -/
  key : Option KeyStart
  /-- The same for the collections around it; empty outside flow collections. -/
  outer : List (Option KeyStart)
  /-- The tokens so far. -/
  tokens : List Token

namespace Lexer

def new (cs : List Char) : Lexer := ⟨cs, ⟨0, 0⟩, [], true, none, [], []⟩

def inFlow (l : Lexer) : Bool := !l.outer.isEmpty

/-- The least column of what belongs to the innermost block collection. -/
def floor (l : Lexer) : Nat :=
  match l.indents with
  | [] => 0
  | i :: _ => i + 1

/-- The place of the next token, whether a key may start there, and the stream from it on:
passes over blanks, comments and line breaks. Where a key may start, a tab is not a blank. -/
def skipGap (flow : Bool) (m : Mark) (keyAllowed comment : Bool) :
    List Char → Mark × Bool × List Char
  | [] => (m, keyAllowed, [])
  | c :: cs =>
    if isBreak c then skipGap flow (m.next c) (keyAllowed || !flow) false cs
    else if comment || c == ' ' || (c == '\t' && (flow || !keyAllowed)) ||
        (c == byteOrderMark && m.column == 0) then
      skipGap flow (m.next c) keyAllowed comment cs
    else if c == '#' then skipGap flow (m.next c) keyAllowed true cs
    else (m, keyAllowed, c :: cs)

/-- Forgets the start of a key if it is too far back, unless a colon must follow it. -/
def expire? (m : Mark) : Option KeyStart → Option (Option KeyStart)
  | none => some none
  | some k => if k.isStale m then (if k.required then none else some none) else some (some k)

def advance? (l : Lexer) : Option Lexer := do
  let (m, keyAllowed, rest) := skipGap l.inFlow l.mark l.keyAllowed false l.rest
  let key ← expire? m l.key
  let outer ← l.outer.mapM (expire? m)
  pure { l with rest := rest, mark := m, keyAllowed := keyAllowed, key := key, outer := outer }

def emit (l : Lexer) (ts : List Token) : Lexer := { l with tokens := l.tokens ++ ts }

def closeFrom (floor : Nat) (l : Lexer) : Lexer :=
  if l.inFlow then l
  else
    { l with
      indents := l.indents.dropWhile fun i => decide (floor ≤ i)
      tokens := l.tokens ++
        (l.indents.takeWhile fun i => decide (floor ≤ i)).map fun _ => Token.blockEnd }

/-- Opens a block collection at a column unless one is open there or further in; its token goes
before the token of the given index. -/
def openAt (column index : Nat) (start : Token) (l : Lexer) : Lexer :=
  if l.inFlow || decide (column < l.floor) then l
  else
    { l with
      indents := column :: l.indents
      tokens := l.tokens.take index ++ start :: l.tokens.drop index }

def openHere (start : Token) (l : Lexer) : Lexer :=
  l.openAt l.mark.column l.tokens.length start

/-- Gives up the possible key, unless a colon must follow it. -/
def dropKey? (l : Lexer) : Option Lexer :=
  if l.key.any KeyStart.required then none else some { l with key := none }

def saveKey? (l : Lexer) : Option Lexer :=
  if l.keyAllowed then
    (l.dropKey?).map fun l =>
      { l with
        key := some
          { index := l.tokens.length
            mark := l.mark
            required := !l.inFlow && l.floor == l.mark.column + 1 } }
  else some l

def take (t : Token) (l : Lexer) : Lexer :=
  match l.rest with
  | [] => l
  | c :: cs => { l with rest := cs, mark := l.mark.next c, tokens := l.tokens ++ [t] }

def accept (t : List Char → Token) (s : Scanned) (l : Lexer) : Lexer :=
  { l with rest := s.rest, mark := s.mark, tokens := l.tokens ++ [t s.text] }

def documentMarker? (t : Token) (l : Lexer) : Option Lexer := do
  let l ← (l.closeFrom 0).dropKey?
  let m := l.mark.after (l.rest.take 3)
  pure { (l.emit [t]) with rest := l.rest.drop 3, mark := m, keyAllowed := false }

def directive? (l : Lexer) : Option Lexer := do
  let l ← (l.closeFrom 0).dropKey?
  let (t, rest) ← scanDirective (l.rest.drop 1)
  pure { (l.emit [t]) with rest := rest, mark := ⟨l.mark.line + 1, 0⟩, keyAllowed := false }

/-- The start of a flow collection, which may be a key. -/
def flowStart? (t : Token) (l : Lexer) : Option Lexer :=
  (l.saveKey?).map fun l =>
    { (l.take t) with keyAllowed := true, key := none, outer := l.key :: l.outer }

def flowEnd? (t : Token) (l : Lexer) : Option Lexer :=
  (l.dropKey?).map fun l =>
    match l.outer with
    | [] => { (l.take t) with keyAllowed := false }
    | k :: ks => { (l.take t) with keyAllowed := false, key := k, outer := ks }

def flowComma? (l : Lexer) : Option Lexer :=
  (l.dropKey?).map fun l => { (l.take .flowEntry) with keyAllowed := true }

def blockDash? (l : Lexer) : Option Lexer :=
  if !l.inFlow && !l.keyAllowed then none
  else
    ((l.openHere .blockSequenceStart).dropKey?).map fun l =>
      { (l.take .blockEntry) with keyAllowed := true }

def explicitKey? (l : Lexer) : Option Lexer :=
  if !l.inFlow && !l.keyAllowed then none
  else
    ((l.openHere .blockMappingStart).dropKey?).map fun l =>
      { (l.take .key) with keyAllowed := !l.inFlow }

/-- A colon before a value. If a key was possible, it was one. -/
def value? (l : Lexer) : Option Lexer :=
  match l.key with
  | some k =>
    let l := { l with tokens := l.tokens.take k.index ++ Token.key :: l.tokens.drop k.index }
    let l := l.openAt k.mark.column k.index .blockMappingStart
    some { (l.take .value) with keyAllowed := false, key := none }
  | none =>
    if !l.inFlow && !l.keyAllowed then none
    else some { ((l.openHere .blockMappingStart).take .value) with keyAllowed := !l.inFlow }

/-- A node property, an alias or a quoted scalar, which may be a key or stand before one. -/
def named? (t : List Char → Token) (scan : Mark → List Char → Option Scanned) (l : Lexer) :
    Option Lexer := do
  let l ← l.saveKey?
  match l.rest with
  | [] => none
  | c :: cs =>
    let s ← scan (l.mark.next c) cs
    pure { (l.accept t s) with keyAllowed := false }

def tag? (l : Lexer) : Option Lexer := do
  let l ← l.saveKey?
  let (t, m, rest) ← scanTag l.inFlow l.mark l.rest
  pure { (l.emit [.tag t]) with rest := rest, mark := m, keyAllowed := false }

def block? (folded : Bool) (l : Lexer) : Option Lexer := do
  let l ← l.dropKey?
  let s ← scanBlock folded l.floor l.mark (l.rest.drop 1)
  pure { (l.accept (.scalar false) s) with keyAllowed := true }

def plain? (l : Lexer) : Option Lexer := do
  let l ← l.saveKey?
  let (s, broken) ← scanPlain ⟨l.inFlow, l.floor⟩ l.mark .none l.rest
  pure { (l.accept (.scalar true) s) with keyAllowed := broken }

/-- A character that cannot start a plain scalar, whatever comes after it. -/
def isIndicator (c : Char) : Bool :=
  ",[]\x7b\x7d#&*!|>'\"%@\x60".toList.contains c

def plainStarts (flow : Bool) : List Char → Bool
  | [] => false
  | c :: cs =>
    if isGap c || isIndicator c then false
    else if c == '-' then !gapNext cs
    else if c == '?' || c == ':' then !flow && !gapNext cs
    else true

def token? (l : Lexer) : Option Lexer :=
  match l.rest with
  | [] => none
  | c :: cs =>
    if l.mark.column = 0 ∧ c = '%' then l.directive?
    else if l.mark.column = 0 ∧ markerNext (c :: cs) = true then
      l.documentMarker? (if c = '-' then .documentStart else .documentEnd)
    else if c = '[' then l.flowStart? .flowSequenceStart
    else if c = '{' then l.flowStart? .flowMappingStart
    else if c = ']' then l.flowEnd? .flowSequenceEnd
    else if c = '}' then l.flowEnd? .flowMappingEnd
    else if c = ',' then l.flowComma?
    else if c = '-' ∧ gapNext cs = true then l.blockDash?
    else if c = '?' ∧ (l.inFlow || gapNext cs) = true then l.explicitKey?
    else if c = ':' ∧ (l.inFlow || gapNext cs) = true then l.value?
    else if c = '*' then l.named? .reference scanName
    else if c = '&' then l.named? .anchor scanName
    else if c = '!' then l.tag?
    else if c = '|' ∧ l.inFlow = false then l.block? false
    else if c = '>' ∧ l.inFlow = false then l.block? true
    else if c = '\'' then l.named? (.scalar false) fun m cs => scanSingle m .none cs
    else if c = '"' then l.named? (.scalar false) fun m cs => scanDouble m .none .off cs
    else if plainStarts l.inFlow (c :: cs) then l.plain?
    else none

def finish? (l : Lexer) : Option (List Token) :=
  ((l.closeFrom 0).dropKey?).map fun l => l.tokens ++ [.streamEnd]

/-- Reads all tokens. Each of them takes at least one character. -/
def run? (l : Lexer) : Option (List Token) :=
  match l.advance? with
  | none => none
  | some a =>
    let a := a.closeFrom (a.mark.column + 1)
    if a.rest = [] then a.finish?
    else
      match a.token? with
      | none => none
      | some next => if next.rest.length < l.rest.length then next.run? else none
termination_by l.rest.length

end Lexer

def tokens? (cs : List Char) : Option (List Token) :=
  if cs.all isAllowed then (Lexer.new (unifyBreaks cs)).run? else none

end Inlay.Yaml
