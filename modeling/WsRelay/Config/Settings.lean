import WsRelay.Error
import WsRelay.Text.Cut
import WsRelay.Text.Digits
/-! # Settings

Where the relay listens, which backend finds its peers, and the options of that backend; and the
file the settings are read from:

    # a comment
    [core]
    port = 8001
    [backend]
    host = tcp://localhost

Lines before the first section header belong to `[core]`.  Every line of `[backend]` is an option
for the backend, kept in order.  The first line that is wrong is reported with its number. -/

namespace WsRelay

/-- The name of the backend that sends every connection to one peer. -/
def defaultBackend : String := "defaultpeer"

/-- The settings of the relay. -/
structure Settings where
  listen : String := "::"
  port : Nat := 8001
  backend : String := defaultBackend
  /-- Options of the backend; a later one overrides an earlier one. -/
  options : List (String × String) := []
deriving DecidableEq, Repr

/-- What is wrong with a line of a configuration file. -/
inductive LineFault where
  | unterminatedSection
  | unknownSection (name : String)
  | noEquals
  | emptyKey
  | unknownKey (key : String)
  | badPort (value : String)
deriving DecidableEq, Repr

/-- The fault in words. -/
def LineFault.message : LineFault → String
  | unterminatedSection => "unterminated section header"
  | unknownSection name => "unknown section '" ++ name ++ "'"
  | noEquals => "expected 'key = value'"
  | emptyKey => "empty key"
  | unknownKey key => "unknown core option '" ++ key ++ "'"
  | badPort value => "invalid port '" ++ value ++ "'"

namespace Settings

/-- The sections of a configuration file. -/
inductive Section where
  | core
  | backend
deriving DecidableEq, Repr

/-- How far a file has been read. -/
structure Reading where
  /-- The settings so far, without options. -/
  settings : Settings := {}
  /-- The options so far, the last one first. -/
  latest : List (String × String) := []
  /-- The section the next line is in. -/
  current : Section := .core
deriving DecidableEq, Repr

/-- What has been read. -/
def Reading.result (r : Reading) : Settings :=
  { r.settings with options := r.latest.reverse }

/-- The settings after a line of `[core]`. -/
def setCore (s : Settings) (key value : String) : Except LineFault Settings :=
  if key = "listen" then .ok { s with listen := value }
  else if key = "port" then
    match Text.port? value with
    | none => .error (.badPort value)
    | some port => .ok { s with port }
  else if key = "backend" then .ok { s with backend := value }
  else .error (.unknownKey key)

/-- The section a header names; `name` is what follows the opening bracket. -/
def sectionOf (name : String) : Except LineFault Section :=
  match Text.stripEnd? ']' name with
  | none => .error .unterminatedSection
  | some name =>
    let name := Text.trim name
    if name = "core" then .ok .core
    else if name = "backend" then .ok .backend
    else .error (.unknownSection name)

/-- After a line `key = value`. -/
def Reading.setting (r : Reading) (line : String) : Except LineFault Reading :=
  match Text.cut? '=' line with
  | none => .error .noEquals
  | some (key, value) =>
    let key := Text.trim key
    let value := Text.trim value
    if key = "" then .error .emptyKey
    else match r.current with
      | .core => (r.settings.setCore key value).map fun s => { r with settings := s }
      | .backend => .ok { r with latest := (key, value) :: r.latest }

/-- After one line of the file. -/
def Reading.line (r : Reading) (raw : String) : Except LineFault Reading :=
  let line := Text.trim raw
  match line.toList with
  | [] | '#' :: _ | ';' :: _ => .ok r
  | '[' :: name => (sectionOf (String.ofList name)).map fun s => { r with current := s }
  | _ => r.setting line

/-- After the lines numbered from `number` on, or the number of the first wrong one. -/
def Reading.lines (r : Reading) (number : Nat) : List String → Except (Nat × LineFault) Reading
  | [] => .ok r
  | raw :: rest =>
    match r.line raw with
    | .error fault => .error (number, fault)
    | .ok r => r.lines (number + 1) rest

/-- The settings a text gives; `path` is named in errors. -/
def parse (text path : String) : Except Error Settings :=
  match Reading.lines {} 1 (Text.pieces '\n' text) with
  | .error (number, fault) => .error (.configFile path number fault.message)
  | .ok r => .ok r.result

/-- The settings a file gives.  `read` opens files by path. -/
def ofFile (read : String → Except IoFault Bytes) (path : String) : Except Error Settings :=
  match read path with
  | .error fault => .error (.io fault)
  | .ok bytes =>
    match Utf8.decode? bytes with
    | none => .error (.io .notText)
    | some text => parse text path

end Settings

end WsRelay
