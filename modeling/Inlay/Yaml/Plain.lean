import Inlay.Yaml.Fold

/-!
Plain scalars. Such a scalar runs on, over line breaks too, until an indicator ends it: a colon
before a gap, a hash after one, a document marker, a flow indicator where these count, or a
line that is not indented enough.
-/

namespace Inlay.Yaml

def isFlowIndicator (c : Char) : Bool :=
  c == ',' || c == '[' || c == ']' || c == '{' || c == '}'

structure PlainContext where
  /-- Inside a flow collection? -/
  flow : Bool
  /-- The least column of a continuation line, outside flow collections. -/
  floor : Nat

/-- Does a plain scalar end before `cs`, which stands at `m` after the gap `gap`? -/
def plainEnds (ctx : PlainContext) (m : Mark) (gap : Gap) : List Char → Bool
  | [] => true
  | c :: cs =>
    (c == ':' && gapNext cs) || (ctx.flow && isFlowIndicator c) ||
      (!gap.isEmpty &&
        ((!ctx.flow && decide (m.column < ctx.floor)) || (m.column == 0 && markerNext (c :: cs)) ||
          c == '#'))

/-- In a flow collection a colon may not be followed by a flow indicator or a question mark. -/
def plainClash (ctx : PlainContext) : List Char → Bool
  | ':' :: c :: _ => ctx.flow && (isFlowIndicator c || c == '?')
  | _ => false

/-- The rest of a plain scalar after a gap `gap`, which may be empty. The flag of the result
says whether the scalar is followed by a line break. -/
def scanPlain (ctx : PlainContext) (m : Mark) (gap : Gap) : List Char → Option (Scanned × Bool)
  | [] => some (⟨[], m, []⟩, gap.isBroken)
  | c :: cs =>
    if isGap c then
      if gap.isBroken && decide (m.column < ctx.floor) && c == '\t' then none
      else scanPlain ctx (m.next c) (gap.extend c) cs
    else if plainEnds ctx m gap (c :: cs) then some (⟨[], m, c :: cs⟩, gap.isBroken)
    else if plainClash ctx (c :: cs) then none
    else
      (scanPlain ctx (m.next c) .none cs).map fun (s, broken) =>
        (s.push (gap.text ++ [c]), broken)

end Inlay.Yaml
