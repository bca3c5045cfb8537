import Inlay.Text.Decimal

/-!
JSON whose numbers are natural and whose strings are written without escapes. Everything read here
is JSON; what JSON has besides is refused.
-/

namespace Inlay

inductive Json
  | number (n : Nat)
  | string (text : List Char)
  | array (items : List Json)
  /-- Keys may stand twice; they are kept in order. -/
  | object (members : List (List Char × Json))

namespace Json

open Text

/-! ### Tokens -/

/-- The smallest parts of a JSON text. -/
inductive Token
  | number (n : Nat)
  | string (text : List Char)
  | arrayStart
  | arrayEnd
  | objectStart
  | objectEnd
  | colon
  | comma

def isGap (c : Char) : Bool :=
  c == ' ' || c == '\n' || c == '\r' || c == '\t'

/-- A character that stands for itself in a string. -/
def isPlain (c : Char) : Bool :=
  0x20 ≤ c.toNat && c != '"' && c != '\\'

def punctuation? : Char → Option Token
  | '[' => some .arrayStart
  | ']' => some .arrayEnd
  | '{' => some .objectStart
  | '}' => some .objectEnd
  | ':' => some .colon
  | ',' => some .comma
  | _ => none

def tokens? : List Char → Option (List Token)
  | [] => some []
  | c :: cs =>
    if isGap c then tokens? cs
    else if c = '"' then
      if (cs.dropWhile isPlain).head? = some '"' then
        (tokens? (cs.dropWhile isPlain).tail).map (.string (cs.takeWhile isPlain) :: ·)
      else none
    else if c.isDigit then do
      let n ← natural? (c :: cs.takeWhile Char.isDigit)
      (tokens? (cs.dropWhile Char.isDigit)).map (.number n :: ·)
    else do
      let t ← punctuation? c
      (tokens? cs).map (t :: ·)
termination_by cs => cs.length
decreasing_by
  · simp
  · have hle := (List.dropWhile_suffix isPlain (l := cs)).length_le
    simp only [List.length_cons, List.length_tail]
    omega
  · have hle := (List.dropWhile_suffix Char.isDigit (l := cs)).length_le
    simp only [List.length_cons]
    omega
  · simp

/-! ### Values -/

/-- An array or object that has not ended, with what has been read of it. -/
inductive Frame
  | array (items : List Json)
  /-- The value of the last key is still to come. -/
  | object (members : List (List Char × Json)) (key : List Char)

/-- What a reader of tokens waits for, and what is open around that; the innermost frame comes
first. What has only begun may also end at once. -/
inductive Reader
  | value (begun : Bool) (frames : List Frame)
  | key (begun : Bool) (members : List (List Char × Json)) (frames : List Frame)
  | colon (members : List (List Char × Json)) (key : List Char) (frames : List Frame)
  /-- A value has been read; it goes on or ends with what is around. -/
  | more (v : Json) (frames : List Frame)

def Reader.feed? : Reader → Token → Option Reader
  | value _ frames, .number n => some (more (.number n) frames)
  | value _ frames, .string t => some (more (.string t) frames)
  | value _ frames, .arrayStart => some (value true (.array [] :: frames))
  | value _ frames, .objectStart => some (key true [] frames)
  | value true (.array items :: frames), .arrayEnd => some (more (.array items) frames)
  | key _ members frames, .string k => some (colon members k frames)
  | key true members frames, .objectEnd => some (more (.object members) frames)
  | colon members k frames, .colon => some (value false (.object members k :: frames))
  | more v (.array items :: frames), .comma => some (value false (.array (items ++ [v]) :: frames))
  | more v (.array items :: frames), .arrayEnd => some (more (.array (items ++ [v])) frames)
  | more v (.object members k :: frames), .comma => some (key false (members ++ [(k, v)]) frames)
  | more v (.object members k :: frames), .objectEnd =>
    some (more (.object (members ++ [(k, v)])) frames)
  | _, _ => none

def Reader.feedAll? (r : Reader) : List Token → Option Reader
  | [] => some r
  | t :: ts => (r.feed? t).bind (·.feedAll? ts)

/-- The value of a text. -/
def parse? (cs : List Char) : Option Json := do
  match ← (Reader.value false []).feedAll? (← tokens? cs) with
  | .more v [] => some v
  | _ => none

/-! ### Parts of values -/

/-- The members of an object; nothing else has any. -/
def members : Json → List (List Char × Json)
  | object members => members
  | _ => []

end Json

end Inlay
