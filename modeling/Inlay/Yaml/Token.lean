/-!
The tokens of a YAML stream.
-/

namespace Inlay.Yaml

/-- A tag as it is written: a handle and what follows it. -/
structure Tag where
  handle : List Char
  suffix : List Char
  deriving DecidableEq

inductive Token
  | versionDirective (major minor : Nat)
  | tagDirective (handle meaning : List Char)
  | documentStart
  | documentEnd
  | blockSequenceStart
  | blockMappingStart
  /-- The end of a block collection. -/
  | blockEnd
  | flowSequenceStart
  | flowSequenceEnd
  | flowMappingStart
  | flowMappingEnd
  | flowEntry
  | blockEntry
  | key
  | value
  | reference (name : List Char)
  | anchor (name : List Char)
  | tag (tag : Tag)
  /-- `plain` tells a scalar without quotes or block header from the others. -/
  | scalar (plain : Bool) (text : List Char)
  | streamEnd
  deriving DecidableEq

end Inlay.Yaml
