import WsRelay.Digest
import WsRelay.Error
import WsRelay.Text.Cut
import WsRelay.Text.Digits
import WsRelay.Text.Utf8
/-! # The opening handshake

A client opens with the line `GET <path> HTTP/<version>`.  The path is everything up to the first
blank; what follows that blank has to start with `HTTP/`.

Header lines are fed to a `Request` one at a time until the empty line.  It keeps what decides the
upgrade (version, key, whether both upgrade headers were seen), the subprotocols on offer, and the
first ten headers of any other kind.  `Request.grant` then grants the upgrade or refuses it.

The answer that grants the upgrade carries a key worked out of the client's (RFC 6455 §4.2.2); a
refusal is a bare status line. -/

namespace WsRelay.Handshake

/-! ### The request line -/

/-- The path a request line asks for. -/
def path? (line : Bytes) : Except Error String :=
  match (Utf8.encode "GET ").isPrefixOf? line with
  | none => .error (.requestLine "unsupported HTTP method")
  | some rest =>
    let path := rest.takeWhile fun b => !Bytes.isBlank b
    let version := rest.drop (path.length + 1)
    if (Utf8.encode "HTTP/").isPrefixOf version then .ok (Utf8.decodeLossy path)
    else .error (.requestLine "missing HTTP protocol token")

/-! ### Header lines -/

/-- A header the relay gives no meaning to. -/
structure Header where
  tag : String
  value : String
deriving DecidableEq, Repr

/-- How many headers of no meaning are kept. -/
def headerLimit : Nat := 10

/-- The protocol version that is spoken (RFC 6455 §4.1). -/
def version : Nat := 13

/-- The largest version number that is told apart from larger ones. -/
def versionTop : Nat := UInt32.size - 1

/-- What the header lines so far have said. -/
structure Request where
  path : String := ""
  version : Nat := 0
  key : Option String := none
  /-- An `Upgrade: websocket` line was seen. -/
  upgrade : Bool := false
  /-- A `Connection` line that mentions an upgrade was seen. -/
  connection : Bool := false
  /-- Subprotocols on offer, in order, each once. -/
  protocols : List String := []
  headers : List Header := []
deriving DecidableEq, Repr

/-- What a header line is: a header, after which the request stands as given, or the end. -/
inductive Fed where
  | header (request : Request)
  | finish
deriving DecidableEq, Repr

namespace Request

/-- One more offer; an offer made before is not repeated. -/
def addOffer (r : Request) (offer : String) : Request :=
  if r.protocols.contains offer then r else { r with protocols := r.protocols ++ [offer] }

/-- The offers of one line, separated by commas. -/
def addOffers (r : Request) (value : String) : Request :=
  (((Text.pieces ',' value).map Text.trim).filter (· ≠ "")).foldl addOffer r

/-- A header of no meaning, kept while there is room. -/
def keep (r : Request) (tag value : String) : Request :=
  if r.headers.length < headerLimit then { r with headers := r.headers ++ [⟨tag, value⟩] } else r

/-- The header `tag`, whose value has no blank in front. -/
def set (r : Request) (tag value : String) : Request :=
  if tag = "Sec-WebSocket-Version" then
    { r with version := Text.decimalPrefix versionTop value }
  else if tag = "Sec-WebSocket-Key" then { r with key := some (Text.trimEnd value) }
  else if tag = "Upgrade" ∧ Text.sameIgnoringCase (Text.trimEnd value) "websocket" then
    { r with upgrade := true }
  else if tag = "Connection" ∧ Text.contains (Text.lower value) "upgrade" then
    { r with connection := true }
  else if tag = "Sec-WebSocket-Protocol" then r.addOffers value
  else r.keep tag value

/-- Feeds a header line. -/
def feed (r : Request) (line : Bytes) : Except Error Fed :=
  match line with
  | [] => .ok .finish
  | b :: _ =>
    if Bytes.isBlank b then .error (.handshake 500 "Header folding")
    else match Text.cut? ':' (Utf8.decodeLossy line) with
      | none => .error (.handshake 500 "Header format")
      | some (tag, value) => .ok (.header (r.set tag (Text.trimStart value)))

/-- Grants the upgrade, with the client's key, or refuses it. -/
def grant (r : Request) : Except Error String :=
  if r.version ≠ Handshake.version then
    .error (.handshake 426 "Unsupported protocol version")
  else match r.key with
    | some key =>
      if r.upgrade && r.connection then .ok key else .error (.handshake 400 "Bad Request")
    | none => .error (.handshake 400 "Bad Request")

end Request

/-! ### The answer -/

/-- The text every client key is joined with (RFC 6455 §1.3). -/
def keySuffix : String := "258EAFA5-E914-47DA-95CA-C5AB0DC85B11"

/-- The key that answers a client's key. -/
def acceptKey (clientKey : String) : String :=
  Base64.encode (Sha1.digest (Utf8.encode (Text.trim clientKey) ++ Utf8.encode keySuffix))

/-- The answer that grants the upgrade, naming the subprotocol that was accepted. -/
def switching (accept : String) (protocol : Option String) : String :=
  "HTTP/1.1 101 Switching Protocols\r\n" ++ "Upgrade: websocket\r\n" ++ "Connection: Upgrade\r\n"
    ++ "Sec-WebSocket-Accept: " ++ accept ++ "\r\n"
    ++ (match protocol with
        | none => ""
        | some name => "Sec-WebSocket-Protocol: " ++ name ++ "\r\n")
    ++ "\r\n"

/-- A bare status line. -/
def statusLine (status : String) : String :=
  "HTTP/1.1 " ++ status ++ "\r\n\r\n"

end WsRelay.Handshake
