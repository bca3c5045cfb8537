import Inlay.Unicode.Ranges

/-!
Small sets of Unicode 16 that separate or join words, by code point.
-/

namespace Inlay.Unicode

/-- The code points with the property White_Space. -/
def whiteSpace : List (Nat × Nat) :=
  [(0x9, 0xD), (0x20, 0x20), (0x85, 0x85), (0xA0, 0xA0), (0x1680, 0x1680), (0x2000, 0x200A),
   (0x2028, 0x2029), (0x202F, 0x202F), (0x205F, 0x205F), (0x3000, 0x3000)]

example : ascending whiteSpace = true := by decide +kernel

/-- The code points of the category Connector_Punctuation (Pc). -/
def connectorPunctuation : List (Nat × Nat) :=
  [(0x5F, 0x5F), (0x203F, 0x2040), (0x2054, 0x2054), (0xFE33, 0xFE34), (0xFE4D, 0xFE4F),
   (0xFF3F, 0xFF3F)]

example : ascending connectorPunctuation = true := by decide +kernel

/-- The code points with the property Join_Control. -/
def joinControl : List (Nat × Nat) :=
  [(0x200C, 0x200D)]

example : ascending joinControl = true := by decide +kernel

end Inlay.Unicode
