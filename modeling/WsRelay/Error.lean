import WsRelay.Termination
/-! # Failures

What can go wrong, in reading the configuration and in serving a connection.  Every failure has a
message for people (`Error.message`), and one that a connection runs into decides how that
connection ends (`Error.termination`). -/

namespace WsRelay

/-- A failure of the operating system. -/
inductive IoFault where
  | notFound
  | isDirectory
  | notDirectory
  /-- No file can have this name. -/
  | badName
  | nameTooLong
  /-- A file that should be text is not UTF-8. -/
  | notText
  /-- The other end of a socket is gone. -/
  | brokenPipe
  /-- The socket cannot do what is asked of it. -/
  | unsupported
  | other (message : String)
deriving DecidableEq, Repr

/-- The system's wording. -/
def IoFault.message : IoFault → String
  | notFound => "No such file or directory (os error 2)"
  | isDirectory => "Is a directory (os error 21)"
  | notDirectory => "Not a directory (os error 20)"
  | badName => "file name contained an unexpected NUL byte"
  | nameTooLong => "File name too long (os error 36)"
  | notText => "stream did not contain valid UTF-8"
  | brokenPipe => "Broken pipe (os error 32)"
  | unsupported => "unsupported operation"
  | other message => message

/-- Why a framing gives up on the bytes of a peer. -/
inductive FramingError where
  | badHexEscape
  | unknownEscape (byte : UInt8)
  | trailingBackslash
  | emptySeparator
  | badRecordLength (config : String)
  | malformedOption (item : String)
  | badOffset (value : String)
  | badStatic (value : String)
  | badEndian (value : String)
  | unknownOption (key : String)
  /-- A length field announces a record of no or negative length. -/
  | recordOutOfRange (length : Int)
  /-- A framing took more bytes than there are. -/
  | overrun (taken buffered : Nat)
  /-- The reason a framing of its own gives. -/
  | custom (message : String)
deriving DecidableEq, Repr

/-- The reason in words. -/
def FramingError.message : FramingError → String
  | badHexEscape => "Invalid hex escape in separator"
  | unknownEscape byte =>
    "Unknown escape sequence \\" ++ String.singleton (Char.ofNat byte.toNat) ++ " in separator"
  | trailingBackslash => "Trailing backslash in separator"
  | emptySeparator => "Empty separator"
  | badRecordLength config => "Invalid record length '" ++ config ++ "'"
  | malformedOption item => "Malformed option '" ++ item ++ "'"
  | badOffset value => "Invalid offset '" ++ value ++ "'"
  | badStatic value => "Invalid static '" ++ value ++ "'"
  | badEndian value => "Invalid endian '" ++ value ++ "'"
  | unknownOption key => "Unknown option '" ++ key ++ "'"
  | recordOutOfRange length => "Invalid record length " ++ toString length
  | overrun taken buffered =>
    "consumed " ++ toString taken ++ " of " ++ toString buffered ++ " buffered bytes"
  | custom message => message

/-- One of the two sockets of a connection. -/
inductive Side where
  | client
  | peer
deriving DecidableEq, Repr

/-- The side's name in messages. -/
def Side.name : Side → String
  | client => "client"
  | peer => "peer"

/-- A failure of the relay. -/
inductive Error where
  /-- A setting is refused. -/
  | config (message : String)
  /-- A line of a configuration file is refused. -/
  | configFile (path : String) (line : Nat) (message : String)
  | unknownBackend (name : String)
  /-- The first line of a client is no request for a page. -/
  | requestLine (message : String)
  /-- A request for an upgrade is refused. -/
  | handshake (status : Nat) (reason : String)
  /-- A client broke the rules of RFC 6455. -/
  | protocolError (code : CloseCode) (message : String)
  /-- A buffer filled up without a unit in it. -/
  | bufferOverflow (side : Side) (capacity : Nat)
  /-- There is no peer for the page asked for. -/
  | noPeer (path : String)
  | peerConnect (address message : String)
  /-- Reading from or sending to the peer failed. -/
  | peerIo (fault : IoFault)
  | peerClosed
  | clientClosed
  | framing (name : String) (cause : FramingError)
  /-- Any other failure of the system, that of a client's socket among them. -/
  | io (fault : IoFault)
deriving DecidableEq, Repr

namespace Error

/-- The failure in words. -/
def message : Error → String
  | config m => "Configuration error: " ++ m
  | configFile path line m =>
    "Configuration error in " ++ path ++ ":" ++ toString line ++ ": " ++ m
  | unknownBackend name => "Unknown backend: " ++ name
  | requestLine m => "Malformed request line: " ++ m
  | handshake status reason => "Handshake rejected: " ++ toString status ++ " " ++ reason
  | protocolError code m => "Protocol error (" ++ toString code.value ++ "): " ++ m
  | bufferOverflow side capacity =>
    side.name ++ " buffer limit of " ++ toString capacity ++ " bytes exceeded"
  | noPeer path => "No peer for endpoint " ++ path
  | peerConnect address m => "Peer connection to " ++ address ++ " failed: " ++ m
  | peerIo fault => "Peer I/O error: " ++ fault.message
  | peerClosed => "Peer closed the connection"
  | clientClosed => "Client closed the connection"
  | framing name cause => "Framing error in " ++ name ++ ": " ++ cause.message
  | io fault => "IO error: " ++ fault.message

/-- The failure that lies beneath this one and has words of its own. -/
def cause? : Error → Option String
  | peerIo fault | io fault => some fault.message
  | framing _ cause => some cause.message
  | _ => none

/-- The configuration is at fault. -/
def isConfigFault : Error → Bool
  | config _ | configFile .. | unknownBackend _ => true
  | _ => false

/-- The client broke the rules of HTTP or of RFC 6455. -/
def isClientFault : Error → Bool
  | requestLine _ | handshake .. | protocolError .. => true
  | _ => false

/-- The failure is on the peer's side. -/
def isPeerFault : Error → Bool
  | noPeer _ | peerConnect .. | peerIo _ | peerClosed => true
  | _ => false

/-- One side hung up, and nothing is at fault. -/
def isHangUp : Error → Bool
  | clientClosed | peerClosed => true
  | _ => false

/-- How a connection that fails in this way ends. -/
def termination : Error → Termination
  | handshake status reason => .http (toString status ++ " " ++ reason)
  | noPeer _ | peerConnect .. => .http "500 Peer connection failed"
  | protocolError code m => .close code m
  | bufferOverflow .. => .close .tooLarge "Receive size limit exceeded"
  | peerIo _ => .close .unexpected "Failed to forward"
  | peerClosed => .close .unexpected "Peer closed"
  | framing .. => .close .unexpected "Framing error"
  | io _ => .close .unexpected "I/O error"
  | requestLine _ | clientClosed | config _ | configFile .. | unknownBackend _ => .silent

end Error

end WsRelay
