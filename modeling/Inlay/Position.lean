/-!
Places in a document. Lines and columns are natural numbers; they agree with 32-bit ones as long as
a document has fewer than 2^32 lines and each of them fewer than 2^32 columns.
-/

namespace Inlay

/-- A place in a document: line and column from zero, columns in UTF-16 units. -/
structure Position where
  line : Nat
  character : Nat
  deriving DecidableEq

/-- Document order: by line, then by column. -/
def Position.Before (p q : Position) : Prop :=
  p.line < q.line ∨ p.line = q.line ∧ p.character < q.character

instance (p q : Position) : Decidable (p.Before q) :=
  inferInstanceAs (Decidable (_ ∨ _ ∧ _))

theorem Position.Before.ne {p q : Position} (h : p.Before q) : p ≠ q := by
  rintro rfl
  rcases h with h | ⟨-, h⟩
  · exact Nat.lt_irrefl _ h
  · exact Nat.lt_irrefl _ h

end Inlay
