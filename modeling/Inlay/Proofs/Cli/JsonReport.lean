import Mathlib.Tactic.Lemma
import Inlay.Proofs.Scan.NameEnd
import Inlay.Cli.Reading

/-!
Sites printed as JSON are read back. Each piece of the printed text spells its own tokens whatever
stands behind it, so the tokens of the whole are put together from those of the pieces; the reader
then takes in one object after the other.
-/

namespace Inlay

namespace Json

open Text

variable {a b cs t g : List Char} {s u : List Token} {c : Char} {tok : Token}

/-! ### Pieces of text -/

end Json

namespace Cli

open Scan Json

/-! ### One site -/

end Cli

end Inlay
