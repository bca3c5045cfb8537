import Inlay.Unicode.Alphabetic
import Inlay.Unicode.Mark
import Inlay.Unicode.Number
import Inlay.Unicode.Joiner

/-!
The three character classes of the scanner: word characters, blanks and alphanumerics.
No blank is a word character, so a maximal run of the one ends where the other may start.
-/

namespace Inlay.Unicode

/-- A character of an identifier: alphabetic, a mark, a decimal digit, connecting punctuation
or a joiner. -/
def isWord (c : Char) : Bool :=
  inRanges c.toNat alphabetic || inRanges c.toNat decimalNumber || inRanges c.toNat mark ||
    inRanges c.toNat connectorPunctuation || inRanges c.toNat joinControl

def isBlank (c : Char) : Bool :=
  inRanges c.toNat whiteSpace

/-- Alphabetic or a number of any of the three categories; the underscore is not. -/
def isAlphanumeric (c : Char) : Bool :=
  inRanges c.toNat alphabetic || inRanges c.toNat decimalNumber ||
    inRanges c.toNat letterNumber || inRanges c.toNat otherNumber

def blanks : List Nat :=
  whiteSpace.flatMap fun r => List.range' r.1 (r.2 + 1 - r.1)

theorem mem_blanks {c : Char} (h : isBlank c = true) : c.toNat ∈ blanks := by
  obtain ⟨r, hr, h1, h2⟩ := (inRanges_iff (by decide)).mp h
  exact List.mem_flatMap.mpr ⟨r, hr, List.mem_range'_1.mpr ⟨h1, by omega⟩⟩

theorem inRanges_blanks : ∀ n ∈ blanks,
    (inRanges n alphabetic || inRanges n decimalNumber || inRanges n mark ||
      inRanges n connectorPunctuation || inRanges n joinControl) = false := by
  decide +kernel

/-- Blanks and word characters are disjoint. -/
theorem isWord_of_isBlank {c : Char} (h : isBlank c = true) : isWord c = false :=
  inRanges_blanks _ (mem_blanks h)

theorem isBlank_of_isWord {c : Char} (h : isWord c = true) : isBlank c = false := by
  cases hb : isBlank c with
  | false => rfl
  | true => rw [isWord_of_isBlank hb] at h; contradiction

end Inlay.Unicode
