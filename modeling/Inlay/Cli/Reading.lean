import Inlay.Cli.Report
import Inlay.Json
import Inlay.Text.Split

/-!
Lists of binding sites read back from what the program prints: lines for people, which are taken
apart from the right because a path may hold colons and tabs, or JSON.
-/

namespace Inlay.Cli

open Scan Text

end Inlay.Cli
