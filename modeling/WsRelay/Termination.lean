import WsRelay.Frame.Codec
import WsRelay.Text.Utf8
/-! # How a connection ends

The close codes of RFC 6455 §7.4.1 the relay uses, the three ways in which a connection is brought
to its end, and the payload of a close frame: the code and as many whole characters of the reason
as a control frame has room for. -/

namespace WsRelay

/-- The close codes the relay sends. -/
inductive CloseCode where
  /-- Normal closure. -/
  | normal
  /-- The relay is shutting down. -/
  | goingAway
  /-- The client broke the protocol. -/
  | protocolError
  /-- Data of a kind that is not relayed. -/
  | unsupported
  /-- A message larger than the buffers. -/
  | tooLarge
  /-- The peer or the framing failed. -/
  | unexpected
deriving DecidableEq, Repr

namespace CloseCode

/-- The number on the wire. -/
def value : CloseCode → Nat
  | normal => 1000
  | goingAway => 1001
  | protocolError => 1002
  | unsupported => 1003
  | tooLarge => 1009
  | unexpected => 1011

/-- The code a number stands for. -/
def ofValue? (n : Nat) : Option CloseCode :=
  [normal, goingAway, protocolError, unsupported, tooLarge, unexpected].find? (·.value == n)

/-- The code as two bytes. -/
def bytes (code : CloseCode) : Bytes :=
  Bytes.ofNat 2 code.value

/-- The most a control frame may carry (RFC 6455 §5.5). -/
def controlLimit : Nat := 125

/-- The bytes of the longest run of whole characters that fits into `room` bytes. -/
def fitting : (room : Nat) → List Char → Bytes
  | _, [] => []
  | room, c :: cs =>
    let bytes := String.utf8EncodeChar c
    if bytes.length ≤ room then bytes ++ fitting (room - bytes.length) cs else []

/-- The payload of a close frame. -/
def payload (code : CloseCode) (reason : String) : Bytes :=
  code.bytes ++ fitting (controlLimit - 2) reason.toList

theorem length_fitting_le (room : Nat) (cs : List Char) : (fitting room cs).length ≤ room := by
  induction cs generalizing room with
  | nil => simp [fitting]
  | cons c cs ih =>
    simp only [fitting]
    split
    · have := ih (room - (String.utf8EncodeChar c).length)
      simp only [List.length_append]
      omega
    · simp

/-- A close payload fits into a control frame. -/
theorem length_payload_le (code : CloseCode) (reason : String) :
    (code.payload reason).length ≤ controlLimit := by
  have := length_fitting_le (controlLimit - 2) reason.toList
  have : 2 ≤ controlLimit := by decide
  simp only [payload, bytes, List.length_append, Bytes.length_ofNat]
  omega

end CloseCode

/-- How a connection ends. -/
inductive Termination where
  /-- Nothing is written. -/
  | silent
  /-- An HTTP status, such as `400 Bad Request`, answers the request for an upgrade. -/
  | http (status : String)
  /-- A close frame is sent. -/
  | close (code : CloseCode) (reason : String)
deriving DecidableEq, Repr

end WsRelay
