import Inlay.Cli.Args
import Inlay.Cli.Report
import Inlay.Config.Document

/-!
The program: what it prints and how it ends, given its arguments, the home directory and the files.
-/

namespace Inlay.Cli

open Config

inductive Result
  | success (output : String)
  /-- A file could not be read. -/
  | failure (file : String) (cause : FileError)
  /-- The settings could not be printed. -/
  | unprinted (cause : String)
  /-- There is nothing to run. -/
  | stopped (reason : Stop)
  deriving DecidableEq

def Result.code : Result → Nat
  | success _ | stopped .help => 0
  | failure _ _ | unprinted _ => 1
  | stopped .usage => 2

/-- What a command prints on standard output. -/
def Result.output : Result → String
  | success output => output
  | _ => ""

/-- What is printed on standard error about a command that failed. -/
def Result.report? : Result → Option String
  | failure file cause => some s!"Error: failed to read {file}\n\nCaused by:\n    {cause.message}\n"
  | unprinted cause => some s!"Error: {cause}\n"
  | _ => none

def Request.settings (r : Request) (read : Reader) (home : Option String) : Settings :=
  match r.configFile with
  | some path => (loadFrom read path).1
  | none => (load read home).1

def Request.run (r : Request) (read : Reader) (home : Option String) : Result :=
  match r.command with
  | .scan file json =>
    match read file with
    | .error e => .failure file e
    | .ok text =>
      let sites := Scan.sites text
      .success (if json then reportJson sites else report file sites)
  | .config =>
    match yaml.print (r.settings read home) with
    | .ok text => .success text
    | .error e => .unprinted e

def run (read : Reader) (home : Option String) (args : List String) : Result :=
  match request none args with
  | .ok r => r.run read home
  | .error reason => .stopped reason

/-- The files that a run may read. -/
def filesToRead (home : Option String) (args : List String) : List String :=
  match request? none args with
  | none => []
  | some r =>
    match r.command, r.configFile with
    | .scan file _, _ => [file]
    | .config, some path => [path]
    | .config, none => (home.map userFile).toList ++ [projectFile]

end Inlay.Cli
