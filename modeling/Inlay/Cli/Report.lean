import Inlay.Scan.Document

/-!
Lists of binding sites as the program prints them: a line for each site, with line and column
counted from one, or JSON, where both are counted from zero.
-/

namespace Inlay.Cli

open Scan

/-- A site in a file, for people. -/
def siteLine (file : String) (s : Site) : String :=
  s!"{file}:{s.position.line + 1}:{s.position.character + 1}\t{s.shape.name}\n"

def jsonNumber (key : String) (n : Nat) : String :=
  s!"    \"{key}\": {n},\n"

def siteJson (s : Site) : String :=
  "  \x7b\n" ++ jsonNumber "line" s.position.line ++
    jsonNumber "character" s.position.character ++ s!"    \"kind\": \"{s.shape.tag}\"\n" ++ "  \x7d"

/-- Sites for people. -/
def report (file : String) (sites : List Site) : String :=
  String.join (sites.map (siteLine file))

def reportJson (sites : List Site) : String :=
  if sites.isEmpty then "[]\n" else "[\n" ++ ",\n".intercalate (sites.map siteJson) ++ "\n]\n"

end Inlay.Cli
