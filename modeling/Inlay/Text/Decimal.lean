/-!
Natural numbers in decimal, each in its one spelling without zeros in front.
-/

namespace Inlay.Text

def natural? (t : List Char) : Option Nat :=
  let n := Nat.ofDigitChars 10 t 0
  if Nat.toDigits 10 n = t then some n else none

end Inlay.Text
