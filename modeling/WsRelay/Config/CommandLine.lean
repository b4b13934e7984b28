import WsRelay.Config.Settings
/-! # The command line

    [-l HOST] [-p PORT] [-b BACKEND] [-c KEY=VALUE]... [CONFIG]

Arguments are read from left to right, and the first one that is wrong, or that asks for help or
for the version, ends the reading.  A value is attached to its option (`-p5`, `-p=5`, `--port=5`)
or is the next argument, which then must not look like an option.  After `--` every argument is
the name of a configuration file, of which there is at most one.

A value or a name that is an argument of its own is checked when the argument after it has been
recognised, so one that is not recognised at all is reported first (`Reading.settle`).

The file is read first.  Flags override its `[core]` section, and `-c` options come after those of
its `[backend]` section. -/

namespace WsRelay

/-- What the command line asks for. -/
structure CommandLine where
  config : Option String := none
  listen : Option String := none
  port : Option Nat := none
  backend : Option String := none
  options : List (String × String) := []
deriving DecidableEq, Repr

namespace CommandLine

/-- Why a command line gives no settings. -/
inductive Stop where
  /-- A value does not mean anything to its option. -/
  | valueValidation
  /-- A value is missing, or empty where it must not be. -/
  | invalidValue
  | unknownArgument
  /-- An option that stands once is given twice. -/
  | argumentConflict
  /-- A flag is given a value. -/
  | tooManyValues
  | displayHelp
  | displayVersion
deriving DecidableEq, Repr

/-- The reason in words; empty where no fault is found. -/
def Stop.message : Stop → String
  | valueValidation => "a value is not one its option takes"
  | invalidValue => "a value is missing"
  | unknownArgument => "an argument is not known"
  | argumentConflict => "an option is given twice"
  | tooManyValues => "a flag is given a value"
  | displayHelp | displayVersion => ""

/-- The options. -/
inductive Flag where
  | listen
  | port
  | backend
  | option
  | help
  | version
deriving DecidableEq, Repr

namespace Flag

/-- Every option. -/
def all : List Flag := [listen, port, backend, option, help, version]

/-- The option's letter. -/
def letter : Flag → Char
  | listen => 'l'
  | port => 'p'
  | backend => 'b'
  | option => 'c'
  | help => 'h'
  | version => 'V'

/-- The option's long name. -/
def longName : Flag → String
  | listen => "listen"
  | port => "port"
  | backend => "backend"
  | option => "option"
  | help => "help"
  | version => "version"

/-- The option of a letter. -/
def ofLetter? (c : Char) : Option Flag :=
  all.find? (·.letter == c)

/-- The option of a long name, which must be written in full. -/
def ofLongName? (name : String) : Option Flag :=
  all.find? (·.longName == name)

end Flag

/-- What an argument looks like. -/
inductive Shape where
  /-- Two dashes and nothing else. -/
  | terminator
  /-- A long option, with the value attached to it. -/
  | long (name : String) (value : Option String)
  /-- A dash, a letter, and what follows the letter. -/
  | short (letter : Char) (attached : String)
  | plain
deriving DecidableEq, Repr

/-- The shape of an argument. -/
def shape (arg : String) : Shape :=
  match arg.toList with
  | ['-', '-'] => .terminator
  | '-' :: '-' :: long =>
    let long := String.ofList long
    match Text.cut? '=' long with
    | some (name, value) => .long name (some value)
    | none => .long long none
  | '-' :: c :: attached => .short c (String.ofList attached)
  | _ => .plain

/-- The value attached to a letter: what follows it, one equals sign aside. -/
def attachedValue (attached : String) : Option String :=
  match attached.toList with
  | [] => none
  | '=' :: value => some (String.ofList value)
  | _ => some attached

/-- The key and value of a `-c` option; the key must not be empty. -/
def keyValue? (value : String) : Option (String × String) :=
  match Text.cut? '=' value with
  | some (key, value) => if key = "" then none else some (key, value)
  | none => none

/-- The command line with an option given a value. -/
def give (line : CommandLine) (flag : Flag) (value : String) : Except Stop CommandLine :=
  match flag with
  | .listen =>
    if line.listen.isSome then .error .argumentConflict
    else .ok { line with listen := some value }
  | .port =>
    if line.port.isSome then .error .argumentConflict
    else match Text.port? value with
      | none => .error .valueValidation
      | some port => .ok { line with port := some port }
  | .backend =>
    if line.backend.isSome then .error .argumentConflict
    else .ok { line with backend := some value }
  | .option =>
    match keyValue? value with
    | none => .error .valueValidation
    | some option => .ok { line with options := line.options ++ [option] }
  | .help => .error .displayHelp
  | .version => .error .displayVersion

/-- An option and the value attached to it, for an argument that looks like one. -/
def option? : Shape → Option (Except Stop (Flag × Option String))
  | .terminator | .plain => none
  | .long name value =>
    match Flag.ofLongName? name, value with
    | none, _ => some (.error .unknownArgument)
    | some .help, some _ | some .version, some _ => some (.error .tooManyValues)
    | some flag, _ => some (.ok (flag, value))
  | .short c attached =>
    match Flag.ofLetter? c with
    | none => some (.error .unknownArgument)
    | some .help => some (.ok (.help, none))
    | some .version => some (.ok (.version, none))
    | some flag => some (.ok (flag, attachedValue attached))

/-- What was recognised last and has not been checked yet. -/
inductive Pending where
  | nothing
  /-- An option, with its value once that has come as an argument of its own. -/
  | option (flag : Flag) (value : Option String)
  /-- The name of the configuration file. -/
  | config (path : String)
deriving DecidableEq, Repr

/-- How far the arguments have been read. -/
structure Reading where
  line : CommandLine := {}
  pending : Pending := .nothing
  /-- A configuration file was named. -/
  named : Bool := false
  /-- Two dashes were seen: no option follows. -/
  terminated : Bool := false
deriving DecidableEq, Repr

namespace Reading

/-- The command line with what is pending checked and taken in. -/
def settle (r : Reading) : Except Stop CommandLine :=
  match r.pending with
  | .nothing => .ok r.line
  | .option _ none => .error .invalidValue
  | .option flag (some value) => r.line.give flag value
  | .config path =>
    if path = "" then .error .invalidValue else .ok { r.line with config := some path }

/-- After an argument that is no option. -/
def positional (r : Reading) (arg : String) : Except Stop Reading :=
  if r.named then .error .unknownArgument
  else r.settle.map fun line => { r with line, pending := .config arg, named := true }

/-- After an option and the value attached to it, if there is one. -/
def option (r : Reading) (flag : Flag) (attached : Option String) : Except Stop Reading :=
  match r.settle with
  | .error stop => .error stop
  | .ok line =>
    match flag, attached with
    | .help, _ => .error .displayHelp
    | .version, _ => .error .displayVersion
    | flag, none => .ok { r with line, pending := .option flag none }
    | flag, some value =>
      (line.give flag value).map fun line => { r with line, pending := .nothing }

/-- After an argument that does not look like an option: a value that is awaited, or a name. -/
def plain (r : Reading) (arg : String) : Except Stop Reading :=
  match r.pending with
  | .option flag none => .ok { r with pending := .option flag (some arg) }
  | _ => r.positional arg

/-- After one more argument. -/
def next (r : Reading) (arg : String) : Except Stop Reading :=
  if r.terminated then r.positional arg
  else match shape arg, option? (shape arg) with
    | .terminator, _ => .ok { r with terminated := true }
    | _, some (.error stop) => .error stop
    | _, some (.ok (flag, attached)) => r.option flag attached
    | _, none => r.plain arg

end Reading

/-- What the arguments ask for. -/
def parse (args : List String) : Except Stop CommandLine :=
  match args.foldlM Reading.next {} with
  | .error stop => .error stop
  | .ok r => r.settle

/-- The settings: those of the file, overridden by the flags. -/
def settings (line : CommandLine) (open? : String → Except IoFault Bytes) :
    Except Error Settings :=
  let base : Except Error Settings :=
    match line.config with
    | none => .ok {}
    | some path => Settings.ofFile open? path
  base.map fun s =>
    { listen := line.listen.getD s.listen
      port := line.port.getD s.port
      backend := line.backend.getD s.backend
      options := s.options ++ line.options }

/-- What is shown on request. -/
def helpText : String :=
  "Proxy between WebSocket clients and raw stream/datagram peers\n\n"
  ++ "Usage: websocksy [OPTIONS] [CONFIG]\n\n"
  ++ "Arguments:\n"
  ++ "  [CONFIG]  Configuration file\n\n"
  ++ "Options:\n"
  ++ "  -l, --listen <HOST>       Host to listen on\n"
  ++ "  -p, --port <PORT>         Port to listen on\n"
  ++ "  -b, --backend <BACKEND>   Peer resolution backend\n"
  ++ "  -c, --option <KEY=VALUE>  Backend option, may be repeated\n"
  ++ "  -h, --help                Print help\n"
  ++ "  -V, --version             Print version\n"

/-- The program's name and version. -/
def versionText : String := "websocksy 0.1.0\n"

end CommandLine

end WsRelay
