import WsRelay.Config.CommandLine
import WsRelay.Peer.Backend
/-! # Starting

Before the relay serves, its settings are loaded, its backend is set up, and a socket is bound.
The first of these tasks that fails is reported, with the chain of causes beneath it. -/

namespace WsRelay

namespace Startup

/-- What is done before the relay serves. -/
inductive Task where
  | loadConfiguration
  | setUpBackend
  | listen (host : String) (port : Nat)
deriving DecidableEq, Repr

/-- What is said of a task that failed. -/
def Task.complaint : Task → String
  | loadConfiguration => "Failed to load configuration"
  | setUpBackend => "Failed to set up peer backend"
  | listen host port => "Failed to listen on " ++ host ++ ":" ++ toString port

/-- Why the relay does not start. -/
structure Failure where
  task : Task
  error : Error
deriving DecidableEq, Repr

/-- The error, and the failure beneath it if that has words of its own. -/
def Failure.causes (f : Failure) : List String :=
  f.error.message :: f.error.cause?.toList

/-- A text with `first` before its first line and `others` before all other lines. -/
def indented (first others text : String) : String :=
  first ++ ("\n" ++ others).intercalate (Text.pieces '\n' text)

/-- The causes, one below the other; several are numbered. -/
def causeLines : List String → List String
  | [cause] => [indented "    " "    " cause]
  | causes =>
    causes.mapIdx fun n cause => indented ("    " ++ toString n ++ ": ") "       " cause

/-- The report of a failure. -/
def Failure.report (f : Failure) : String :=
  "Error: " ++ f.task.complaint ++ "\n\nCaused by:\n"
    ++ "\n".intercalate (causeLines f.causes) ++ "\n"

/-- The settings a command line asks for and the backend they name.  `open?` opens files by
path. -/
def prepare {σ : Type} (line : CommandLine) (open? : String → Except IoFault Bytes)
    (framings : FramingTable σ) : Except Failure (Settings × SinglePeer σ) :=
  match line.settings open? with
  | .error e => .error ⟨.loadConfiguration, e⟩
  | .ok settings =>
    match SinglePeer.ofSettings settings framings with
    | .error e => .error ⟨.setUpBackend, e⟩
    | .ok backend => .ok (settings, backend)

end Startup

end WsRelay
