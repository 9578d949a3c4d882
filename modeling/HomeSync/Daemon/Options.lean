/-
The command line of the daemon.

Arguments are read from left to right.  A question for help or for the version
is answered at once, a mistake ends the reading at once, and nothing may be
given twice.
-/
namespace HomeSync

/-- The options of a run, `none` for what was not given. -/
structure Options where
  config : Option String := none
  logLevel : Option String := none
  once : Bool := false
  initConfig : Bool := false
  deriving DecidableEq

inductive Request where
  | run (o : Options)
  | help
  | version
  deriving DecidableEq

inductive ValueOption where
  | config
  | logLevel
  deriving DecidableEq

inductive Argument where
  | once
  | initConfig
  | help
  | version
  | option (name : ValueOption) (value : Option String)
  | finish
  deriving DecidableEq

namespace Argument

def ofLong? (name : String) (value : Option String) : Option Argument :=
  match name, value with
  | "once", none => some .once
  | "init-config", none => some .initConfig
  | "help", none => some .help
  | "version", none => some .version
  | "config", value => some (.option .config value)
  | "log-level", value => some (.option .logLevel value)
  | _, _ => none

/-- The value that follows a letter in the same argument.  An equals sign may
stand between them. -/
def attached : List Char → Option String
  | [] => none
  | '=' :: cs => some (String.ofList cs)
  | cs => some (String.ofList cs)

/-- Read an argument.  There is none without a dash. -/
def ofString? (s : String) : Option Argument :=
  match s.toList with
  | ['-', '-'] => some .finish
  | '-' :: '-' :: cs =>
    let name := String.ofList (cs.takeWhile (· != '='))
    match cs.dropWhile (· != '=') with
    | _ :: value => ofLong? name (some (String.ofList value))
    | [] => ofLong? name none
  | '-' :: 'h' :: _ => some .help
  | '-' :: 'V' :: _ => some .version
  | '-' :: 'c' :: cs => some (.option .config (attached cs))
  | '-' :: 'l' :: cs => some (.option .logLevel (attached cs))
  | _ => none

end Argument

namespace Options

def path (o : Options) : String := o.config.getD "hemtjanst.toml"

/-- Set an option that has no value yet.  A path is not empty. -/
def set? (o : Options) (name : ValueOption) (value : String) : Option Options :=
  match name with
  | .config =>
    if o.config.isNone && !value.isEmpty then some { o with config := some value } else none
  | .logLevel => if o.logLevel.isNone then some { o with logLevel := some value } else none

/-- Whether an argument can be the value of the option before it. -/
def isValue (s : String) : Bool := s.toList.head? != some '-' || s == "-"

/-- Read the arguments that follow those of the given options. -/
def parseFrom (o : Options) : List String → Option Request
  | [] => some (.run o)
  | arg :: rest =>
    match Argument.ofString? arg with
    | none => none
    | some .help => some .help
    | some .version => some .version
    | some .finish => if rest.isEmpty then some (.run o) else none
    | some .once => if o.once then none else parseFrom { o with once := true } rest
    | some .initConfig =>
      if o.initConfig then none else parseFrom { o with initConfig := true } rest
    | some (.option name (some value)) =>
      match o.set? name value with
      | some o => parseFrom o rest
      | none => none
    | some (.option name none) =>
      match rest with
      | [] => none
      | value :: rest =>
        if isValue value then
          match o.set? name value with
          | some o => parseFrom o rest
          | none => none
        else none

def parse? (args : List String) : Option Request := parseFrom {} args

end Options

namespace Request

def versionText : String := "hemtjanst 0.1.0\n"

def helpLines : List String :=
  ["Smart-home device registry and bridge synchronizer",
   "",
   "Usage: hemtjanst [OPTIONS]",
   "",
   "Options:",
   "  -c, --config <CONFIG>        Path to configuration file [default: hemtjanst.toml]",
   "  -l, --log-level <LOG_LEVEL>  Log level (trace, debug, info, warn, error) [default: info]",
   "      --once                   Process seed announcements, print the registry and exit",
   "      --init-config            Write a default configuration file to the config path and exit",
   "  -h, --help                   Print help",
   "  -V, --version                Print version"]

def helpText : String := String.join (helpLines.map (· ++ "\n"))

end Request
end HomeSync
