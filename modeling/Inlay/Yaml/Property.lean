import Inlay.Yaml.Fold
import Inlay.Yaml.Token
import Inlay.Yaml.Quoted

/-!
Node properties and directives: names of anchors, tags, and the lines that declare a version or a
tag handle.
-/

namespace Inlay.Yaml

def endsName (c : Char) : Bool :=
  c == '?' || c == ':' || c == ',' || c == ']' || c == '}' || c == '%' || c == '@' || c == '\x60'

/-- The name of an anchor or an alias, after its indicator. -/
def scanName (m : Mark) (cs : List Char) : Option Scanned :=
  let name := cs.takeWhile isNameChar
  let rest := cs.dropWhile isNameChar
  if name ≠ [] ∧ (gapNext rest || rest.head?.any endsName) = true then
    some ⟨name, m.after name, rest⟩
  else none

/-- A character that may occur in a tag; flow indicators only where these cannot end it. -/
def isTagChar (wide : Bool) (c : Char) : Bool :=
  isNameChar c || ";/?:@&=+$.!~*'()%".toList.contains c ||
    (wide && (c == ',' || c == '[' || c == ']'))

/-- The octets that a chain of percent codes stands for, as far as it goes. -/
def octets : List Char → List Nat
  | '%' :: a :: b :: cs =>
    match hexValue? a, hexValue? b with
    | some x, some y => (x * 16 + y) :: octets cs
    | _, _ => []
  | _ => []

/-- The length of the character that an octet starts, by its first bits. -/
def octetWidth? (n : Nat) : Option Nat :=
  if n < 0x80 then some 1
  else if 0xC0 ≤ n ∧ n < 0xE0 then some 2
  else if 0xE0 ≤ n ∧ n < 0xF0 then some 3
  else if 0xF0 ≤ n ∧ n < 0xF8 then some 4
  else none

def isTrailing (n : Nat) : Bool := 0x80 ≤ n && n < 0xC0

/-- The character in front of a chain of percent codes, and the length of its codes. Only the first
bits of the octets are looked at; where they are no character all the same, they count as the
replacement character. -/
def percentChar? (cs : List Char) : Option (Nat × Char) := do
  let ns := octets (cs.take 12)
  let w ← octetWidth? (← ns.head?)
  let ns := ns.take w
  if ns.length = w ∧ ns.tail.all isTrailing = true then
    let text := String.fromUTF8? (ByteArray.mk (ns.map Nat.toUInt8).toArray)
    pure (3 * w, (text.bind fun s => s.toList.head?).getD '\uFFFD')
  else none

/-- The text of a tag, of which `skip` characters have been read already. -/
def tagText? (wide : Bool) (skip : Nat) : List Char → Option (List Char)
  | [] => some []
  | c :: cs =>
    match skip with
    | n + 1 => tagText? wide n cs
    | 0 =>
      if c = '%' then
        (percentChar? (c :: cs)).bind fun (w, d) => (tagText? wide (w - 1) cs).map (d :: ·)
      else (tagText? wide 0 cs).map (c :: ·)

/-- A run of tag characters, with its percent codes read. The run may be empty if it is not
`needed`. A code for zero ends the text. -/
def scanTagText (wide needed : Bool) (m : Mark) (cs : List Char) : Option Scanned := do
  let raw := cs.takeWhile (isTagChar wide)
  let text ← tagText? wide 0 raw
  if needed && raw.isEmpty then none
  else pure ⟨text.takeWhile (· != '\x00'), m.after raw, cs.dropWhile (isTagChar wide)⟩

/-- A tag handle: an exclamation mark, perhaps with a name and another one after it. -/
def scanHandle (m : Mark) : List Char → Option Scanned
  | '!' :: cs =>
    let name := cs.takeWhile isNameChar
    match cs.dropWhile isNameChar with
    | '!' :: rest =>
      let text := '!' :: name ++ ['!']
      some ⟨text, m.after text, rest⟩
    | rest =>
      let text := '!' :: name
      some ⟨text, m.after text, rest⟩
  | _ => none

def tagEnds (flow : Bool) (cs : List Char) : Bool :=
  gapNext cs || (flow && cs.head? == some ',')

def scanTag (flow : Bool) (m : Mark) (cs : List Char) : Option (Tag × Mark × List Char) := do
  let (tag, s) ←
    match cs with
    | '!' :: '<' :: inner =>
      let s ← scanTagText true true ((m.next '!').next '<') inner
      match s.rest with
      | '>' :: rest => pure (⟨[], s.text⟩, { s with mark := s.mark.next '>', rest := rest })
      | _ => none
    | _ =>
      let h ← scanHandle m cs
      let named : Bool := 1 < h.text.length ∧ h.text.getLast? = some '!'
      let s ← scanTagText false named h.mark h.rest
      if named then pure (⟨h.text, s.text⟩, s)
      else
        let suffix := h.text.drop 1 ++ s.text
        pure (if suffix = [] then ⟨[], ['!']⟩ else ⟨['!'], suffix⟩, s)
  if tagEnds flow s.rest then pure (tag, s.mark, s.rest) else none

def skipSpaces (cs : List Char) : List Char := cs.dropWhile isSpace

/-- A number of at most nine digits and what follows. -/
def versionNumber? (cs : List Char) : Option (Nat × List Char) :=
  let digits := cs.takeWhile Char.isDigit
  if digits = [] ∨ 9 < digits.length then none
  else
    some (digits.foldl (fun n d => n * 10 + (d.toNat - '0'.toNat)) 0, cs.dropWhile Char.isDigit)

def scanVersion (cs : List Char) : Option (Token × List Char) := do
  let (major, rest) ← versionNumber? (skipSpaces cs)
  match rest with
  | '.' :: rest =>
    let (minor, rest) ← versionNumber? rest
    pure (.versionDirective major minor, rest)
  | _ => none

def scanTagDirective (cs : List Char) : Option (Token × List Char) := do
  let h ← scanHandle ⟨0, 0⟩ (skipSpaces cs)
  if h.text ≠ ['!'] ∧ h.text.getLast? ≠ some '!' then none
  else if !h.rest.head?.any isSpace then none
  else
    let s ← scanTagText true true ⟨0, 0⟩ (skipSpaces h.rest)
    if gapNext s.rest then pure (.tagDirective h.text s.text, s.rest) else none

/-- A directive after its indicator; the rest starts on the next line or is empty. -/
def scanDirective (cs : List Char) : Option (Token × List Char) := do
  let name := cs.takeWhile isNameChar
  let rest := cs.dropWhile isNameChar
  if !gapNext rest then none
  else
    let (token, rest) ←
      if name = "YAML".toList then scanVersion rest
      else if name = "TAG".toList then scanTagDirective rest
      else none
    let rest := skipSpaces rest
    let rest := if rest.head? = some '#' then rest.dropWhile fun c => !isBreak c else rest
    match rest with
    | [] => pure (token, [])
    | c :: cs => if isBreak c then pure (token, cs) else none

end Inlay.Yaml
