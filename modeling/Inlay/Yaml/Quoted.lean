import Inlay.Yaml.Fold

/-!
Quoted scalars. Between single quotes a quote is written twice; between double quotes a backslash
starts an escape. Both may run over several lines, but over no document marker.
-/

namespace Inlay.Yaml

/-- May a quoted scalar not go on with `cs`, which stand at `m`? -/
def quotedClash (m : Mark) (cs : List Char) : Bool :=
  m.column == 0 && markerNext cs

/-- The rest of a scalar in single quotes after a gap. -/
def scanSingle (m : Mark) (gap : Gap) : List Char → Option Scanned
  | [] => none
  | '\'' :: '\'' :: cs =>
    (scanSingle ((m.next '\'').next '\'') .none cs).map (·.push (gap.text ++ ['\'']))
  | '\'' :: cs => some ⟨gap.text, m.next '\'', cs⟩
  | c :: cs =>
    if isGap c then scanSingle (m.next c) (gap.extend c) cs
    else if quotedClash m (c :: cs) then none
    else (scanSingle (m.next c) .none cs).map (·.push (gap.text ++ [c]))

/-- What has been read of an escape. -/
inductive Escape
  /-- No escape. -/
  | off
  /-- The backslash. -/
  | begun
  /-- A part of a code, with the number of digits that follow. -/
  | code (left value : Nat)

def escapeChar? (c : Char) : Option Char :=
  match c with
  | '0' => some '\x00'
  | 'a' => some '\x07'
  | 'b' => some '\x08'
  | 't' | '\t' => some '\t'
  | 'n' => some '\n'
  | 'v' => some '\x0b'
  | 'f' => some '\x0c'
  | 'r' => some '\r'
  | 'e' => some '\x1b'
  | ' ' => some ' '
  | '"' => some '"'
  | '/' => some '/'
  | '\\' => some '\\'
  | 'N' => some '\u0085'
  | '_' => some '\u00a0'
  | 'L' => some '\u2028'
  | 'P' => some '\u2029'
  | _ => none

/-- The number of digits after the letter of a code. -/
def codeLength? (c : Char) : Option Nat :=
  match c with
  | 'x' => some 2
  | 'u' => some 4
  | 'U' => some 8
  | _ => none

def hexValue? (c : Char) : Option Nat :=
  if '0' ≤ c ∧ c ≤ '9' then some (c.toNat - '0'.toNat)
  else if 'a' ≤ c ∧ c ≤ 'f' then some (c.toNat - 'a'.toNat + 10)
  else if 'A' ≤ c ∧ c ≤ 'F' then some (c.toNat - 'A'.toNat + 10)
  else none

def charOfCode? (n : Nat) : Option Char :=
  if n.isValidChar then some (Char.ofNat n) else none

/-- The rest of a scalar in double quotes after a gap, or inside an escape. -/
def scanDouble (m : Mark) (gap : Gap) (esc : Escape) : List Char → Option Scanned
  | [] => none
  | c :: cs =>
    match esc with
    | .code left value =>
      (hexValue? c).bind fun d =>
        if left ≤ 1 then
          (charOfCode? (value * 16 + d)).bind fun e =>
            (scanDouble (m.next c) .none .off cs).map (·.push [e])
        else scanDouble (m.next c) .none (.code (left - 1) (value * 16 + d)) cs
    | .begun =>
      if isBreak c then scanDouble (m.next c) (.broken none []) .off cs
      else
        match codeLength? c with
        | some n => scanDouble (m.next c) .none (.code n 0) cs
        | none =>
          (escapeChar? c).bind fun e => (scanDouble (m.next c) .none .off cs).map (·.push [e])
    | .off =>
      if isGap c then scanDouble (m.next c) (gap.extend c) .off cs
      else if c = '"' then some ⟨gap.text, m.next c, cs⟩
      else if quotedClash m (c :: cs) then none
      else if c = '\\' then (scanDouble (m.next c) .none .begun cs).map (·.push gap.text)
      else (scanDouble (m.next c) .none .off cs).map (·.push (gap.text ++ [c]))

end Inlay.Yaml
