import WsRelay.Proofs.Frame.Prefix
import WsRelay.Proofs.Interpretation
/-! # A reference for what frames lead to

`ruling` says what the bytes at the front of a client's stream lead to after the upgrade: nothing
yet, the end of the connection, or a frame that is passed.  It stands on the header and on how much
has arrived, and more bytes change nothing in it unless they are waited for (`ruling_append`).
It makes an `interpreter` of client streams.

A stream that is waited for is shorter than a buffer (`length_lt_of_wait`): frames do not make a
buffer overflow. -/

namespace WsRelay.Frame

/-- A frame that does not end the connection: its opcode bits and its payload, unmasked. -/
structure Passed where
  opcode : UInt8
  payload : Bytes
deriving DecidableEq, Repr

namespace Passed

/-- The message for the peer: the payload of a text or a binary frame. -/
def message? (p : Passed) : Option Bytes :=
  if p.opcode = 1 ∨ p.opcode = 2 then some p.payload else none

/-- What is to be sent back: the payload of a ping. -/
def ping? (p : Passed) : Option Bytes :=
  if p.opcode = 9 then some p.payload else none

end Passed

/-- The ruling on a frame that has arrived in full; `payload` is as sent. -/
def rulingOn (h : Header) (payload : Bytes) : Ruling Passed :=
  match h.mask with
  | none => .stop (.close .protocolError "Unmasked client frame")
  | some key =>
    if h.opcode ∉ [0, 1, 2, 8, 9, 10] then .stop (.close .protocolError "Invalid opcode")
    else if h.fin = false ∨ h.opcode = 0 then
      .stop (.close .unsupported "Fragmented messages are not supported")
    else if h.opcode = 8 then .stop (.close .normal "Client requested termination")
    else .pass ⟨h.opcode, key.apply payload⟩ (h.length + h.payloadLength)

/-- What the front of a stream leads to. -/
def ruling (s : Bytes) : Ruling Passed :=
  match Header.parse? s with
  | none => .wait
  | some h =>
    if bufferCapacity < h.length + h.payloadLength then
      .stop (.close .tooLarge "Frame exceeds receive buffer")
    else if s.length < h.length + h.payloadLength then .wait
    else rulingOn h ((s.drop h.length).take h.payloadLength)

variable {s x y : Bytes} {h : Header} {p : Passed} {n : Nat} {t : Termination}

theorem rulingOn_ne_wait (payload : Bytes) : rulingOn h payload ≠ .wait := by
  unfold rulingOn
  split
  · exact fun h => by cases h
  · split
    · exact fun h => by cases h
    · split
      · exact fun h => by cases h
      · split <;> exact fun h => by cases h

theorem length_of_rulingOn {payload : Bytes} (hr : rulingOn h payload = .pass p n) :
    n = h.length + h.payloadLength := by
  unfold rulingOn at hr
  split at hr
  · cases hr
  · split at hr
    · cases hr
    · split at hr
      · cases hr
      · split at hr
        · cases hr
        · cases hr
          rfl

/-- A front that is not waited for has a header; the frame is too long, or has arrived. -/
theorem ruling_cases (hr : ruling s ≠ .wait) : ∃ h, Header.parse? s = some h ∧
    (bufferCapacity < h.length + h.payloadLength ∧
        ruling s = .stop (.close .tooLarge "Frame exceeds receive buffer") ∨
      h.length + h.payloadLength ≤ bufferCapacity ∧ h.length + h.payloadLength ≤ s.length ∧
        ruling s = rulingOn h ((s.drop h.length).take h.payloadLength)) := by
  unfold ruling at hr ⊢
  cases hp : Header.parse? s with
  | none =>
      rw [hp] at hr
      exact absurd rfl hr
  | some h =>
      rw [hp] at hr
      dsimp only at hr ⊢
      refine ⟨h, rfl, ?_⟩
      split
      · next hlong => exact .inl ⟨hlong, rfl⟩
      · next hlong =>
        rw [if_neg hlong] at hr
        have hall : ¬ s.length < h.length + h.payloadLength := by
          intro hlt
          rw [if_pos hlt] at hr
          exact hr rfl
        exact .inr ⟨Nat.le_of_not_lt hlong, Nat.le_of_not_lt hall, if_neg hall⟩

/-- A frame that is passed has at least its two header bytes, and has arrived. -/
theorem ruling_pass (hr : ruling s = .pass p n) : 2 ≤ n ∧ n ≤ s.length := by
  have hwait : ruling s ≠ .wait := by
    rw [hr]
    exact fun h => by cases h
  obtain ⟨h, hp, ⟨-, hstop⟩ | ⟨-, hall, hon⟩⟩ := ruling_cases hwait
  · rw [hstop] at hr
    cases hr
  · have hn := length_of_rulingOn (hon.symm.trans hr)
    have := Header.parse?_length hp
    omega

example : ruling [129, 130, 1, 2, 3, 4, 73, 107] = .pass ⟨1, [72, 105]⟩ 8 := by decide

/-- Where a stream is waited for, its front fits into a buffer with room left. -/
theorem length_lt_of_wait (hr : ruling s = .wait) : s.length < bufferCapacity := by
  unfold ruling at hr
  split at hr
  · next hp =>
    refine Nat.lt_of_not_le fun hle => Header.parse?_ne_none (Nat.le_trans ?_ hle) hp
    decide
  · split at hr
    · cases hr
    · split at hr
      · omega
      · exact absurd hr (rulingOn_ne_wait _)

/-- More bytes change nothing in what the front of a stream leads to, unless they are waited for. -/
theorem ruling_append (y : Bytes) (hr : ruling x ≠ .wait) : ruling (x ++ y) = ruling x := by
  obtain ⟨h, hp, ⟨hlong, hstop⟩ | ⟨hshort, hall, hon⟩⟩ := ruling_cases hr
  · rw [hstop, ruling, Header.parse?_append y hp]
    exact if_pos hlong
  · rw [hon, ruling, Header.parse?_append y hp]
    dsimp only
    rw [if_neg (by omega), if_neg (by rw [List.length_append]; omega),
      List.drop_append_of_le_length (by omega),
      List.take_append_of_le_length (by rw [List.length_drop]; omega)]

/-- The interpreter of a client's stream after the upgrade. -/
def interpreter : Interpreter Passed where
  ruling := ruling
  inside hr := by
    have := ruling_pass hr
    omega
  append y hr := ruling_append y hr

end WsRelay.Frame

namespace WsRelay.Interpretation

open WsRelay.Frame

/-- The messages for the peer. -/
def messages (i : Interpretation Passed) : List Bytes :=
  i.items.filterMap Passed.message?

/-- What the client is sent back: one pong for every ping. -/
def pongs (i : Interpretation Passed) : List Reply :=
  (i.items.filterMap Passed.ping?).map (.frame .pong)

end WsRelay.Interpretation
