/-!
The command line. Options may stand before and after the name of the command; a configuration
file named after it wins. After a double hyphen there are only operands. Arguments are read from
left to right, and the first one that is not in order or asks for help settles how the run ends.
-/

namespace Inlay.Cli

inductive Command
  /-- List the binding sites of a file, for people or as JSON. -/
  | scan (file : String) (json : Bool)
  /-- Print the settings. -/
  | config
  deriving DecidableEq

/-- A command line that is in order. -/
structure Request where
  /-- The only configuration file to read, if one is named. -/
  configFile : Option String
  command : Command
  deriving DecidableEq

/-- Why there is nothing to run. -/
inductive Stop
  /-- Help is asked for. -/
  | help
  /-- The command line is not in order. -/
  | usage
  deriving DecidableEq

/-- What an argument is by its spelling. -/
inductive Arg
  | operand
  /-- The option for the configuration file, whose value comes next. -/
  | configNext
  /-- The same with the value in the same argument. -/
  | configWith (file : String)
  | json
  | help
  /-- The end of the options. -/
  | endOfOptions
  | unknown
  deriving DecidableEq

def Arg.of (s : String) : Arg :=
  match s.toList with
  | ['-'] => operand
  | ['-', '-'] => endOfOptions
  | ['-', 'c'] => configNext
  | '-' :: 'c' :: '=' :: v => configWith (String.ofList v)
  | '-' :: 'c' :: v => configWith (String.ofList v)
  | '-' :: 'h' :: _ => help
  | '-' :: '-' :: v =>
    if v = "config".toList then configNext
    else if "config=".toList.isPrefixOf v then configWith (String.ofList (v.drop 7))
    else if v = "json".toList then json
    else if v = "help".toList then help
    else unknown
  | '-' :: _ => unknown
  | _ => operand

/-- The value of an option as an argument of its own: it is not empty and no option. -/
def isValue (s : String) : Bool :=
  s ≠ "" && Arg.of s == .operand

/-- The option for the configuration file at one level, which may be given once and not be empty. -/
def setFile (given : Option String) (file : String) : Except Stop (Option String) :=
  if given.isSome || file = "" then .error .usage else .ok (some file)

/-- The arguments after the name of the scan command. `ended` says that the options have ended. -/
def scanArgs (config file : Option String) (json ended : Bool) :
    List String → Except Stop (Option String × String × Bool)
  | [] =>
    match file with
    | some f => .ok (config, f, json)
    | none => .error .usage
  | a :: as =>
    match if ended then .operand else Arg.of a, as with
    | .operand, as =>
      if file.isSome || a = "" then .error .usage else scanArgs config (some a) json ended as
    | .configNext, v :: as =>
      if isValue v then do scanArgs (← setFile config v) file json ended as else .error .usage
    | .configWith v, as => do scanArgs (← setFile config v) file json ended as
    | .json, as => if json then .error .usage else scanArgs config file true ended as
    | .help, _ => .error .help
    | .endOfOptions, as => scanArgs config file json true as
    | .configNext, [] | .unknown, _ => .error .usage

def configArgs (config : Option String) (ended : Bool) :
    List String → Except Stop (Option String)
  | [] => .ok config
  | a :: as =>
    match if ended then .operand else Arg.of a, as with
    | .configNext, v :: as =>
      if isValue v then do configArgs (← setFile config v) ended as else .error .usage
    | .configWith v, as => do configArgs (← setFile config v) ended as
    | .help, _ => .error .help
    | .endOfOptions, as => configArgs config true as
    | _, _ => .error .usage

/-- The arguments after the name of the command for help: nothing, or the name of a command. -/
def helpArgs : List String → Stop
  | [] | ["scan"] | ["config"] | ["help"] => .help
  | _ => .usage

def request (config : Option String) : List String → Except Stop Request
  | [] => .error .usage
  | a :: as =>
    match Arg.of a, as with
    | .operand, as =>
      if a = "scan" then do
        let (inner, file, json) ← scanArgs none none false false as
        pure ⟨inner.or config, .scan file json⟩
      else if a = "config" then do
        let inner ← configArgs none false as
        pure ⟨inner.or config, .config⟩
      else if a = "help" then .error (helpArgs as)
      else .error .usage
    | .configNext, v :: as =>
      if isValue v then do request (← setFile config v) as else .error .usage
    | .configWith v, as => do request (← setFile config v) as
    | .help, _ => .error .help
    | _, _ => .error .usage

/-- What a command line asks for, if it asks for a run. -/
def request? (config : Option String) (args : List String) : Option Request :=
  (request config args).toOption

end Inlay.Cli
