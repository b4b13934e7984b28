import Mathlib.Order.Bounds.Defs
import WsRelay.Proofs.Frame.Encoding
import WsRelay.Proofs.Text.Boundaries
import WsRelay.Termination
/-! # Payloads of close frames

A close frame carries a code and a reason, and has room for 123 bytes of reason.  The reason is cut
at the last boundary of characters up to there (`Cuts.isGreatest`), so that at most three bytes of
the room are left over.  `readPayload?` reads a payload back, and finds the code and the part of the
reason that was kept (`payload_longest`). -/

namespace WsRelay.CloseCode

variable {code : CloseCode} {reason kept dropped : String}

/-! ### What is kept of a reason -/

/-- What fits into a room is a run of whole characters, and the next character does not fit. -/
theorem exists_fitting (room : Nat) (cs : List Char) :
    ∃ front back, cs = front ++ back ∧ fitting room cs = front.flatMap String.utf8EncodeChar ∧
      ∀ c ∈ back.head?, room < (fitting room cs).length + (String.utf8EncodeChar c).length := by
  induction cs generalizing room with
  | nil => exact ⟨[], [], rfl, rfl, by simp⟩
  | cons c cs ih =>
      simp only [fitting]
      split
      · next hfits =>
        obtain ⟨front, back, rfl, hfitting, hnext⟩ := ih (room - (String.utf8EncodeChar c).length)
        refine ⟨c :: front, back, rfl, ?_, ?_⟩
        · rw [hfitting, List.flatMap_cons]
        · intro d hd
          have := hnext d hd
          rw [List.length_append]
          omega
      · next hlong =>
        refine ⟨[], c :: cs, rfl, rfl, ?_⟩
        intro d hd
        simp only [List.head?_cons, Option.mem_def, Option.some.injEq] at hd
        subst hd
        simp only [List.length_nil]
        omega

/-- A reason is cut into what its payload keeps and what it drops. -/
structure Cuts (code : CloseCode) (reason kept dropped : String) : Prop where
  split : reason = kept ++ dropped
  payload : code.payload reason = code.bytes ++ Utf8.encode kept
  room : (Utf8.encode kept).length ≤ 123
  /-- There is no room for one more character. -/
  full : ∀ c ∈ dropped.toList.head?,
    123 < (Utf8.encode kept).length + (String.utf8EncodeChar c).length

theorem exists_cuts (code : CloseCode) (reason : String) :
    ∃ kept dropped, Cuts code reason kept dropped := by
  obtain ⟨front, back, hsplit, hfitting, hnext⟩ := exists_fitting (controlLimit - 2) reason.toList
  have hroom := length_fitting_le (controlLimit - 2) reason.toList
  have hkept : Utf8.encode (String.ofList front) = fitting (controlLimit - 2) reason.toList := by
    rw [Utf8.encode, String.toList_ofList, hfitting]
  refine ⟨String.ofList front, String.ofList back, ?_, ?_, ?_, ?_⟩
  · rw [← String.ofList_append, ← hsplit, String.ofList_toList]
  · rw [payload, hkept]
  · rw [hkept]
    exact hroom
  · rw [String.toList_ofList, hkept]
    exact hnext

/-- **What is kept ends at the last boundary for which there is room.** -/
theorem Cuts.isGreatest (h : Cuts code reason kept dropped) :
    IsGreatest {n | n ≤ 123 ∧ Utf8.IsBoundary reason n} (Utf8.encode kept).length := by
  constructor
  · exact ⟨h.room, Utf8.isBoundary_iff.mpr ⟨kept, dropped, h.split, rfl⟩⟩
  · rintro n ⟨hn, hboundary⟩
    obtain ⟨front, back, hreason, rfl⟩ := Utf8.isBoundary_iff.mp hboundary
    have hlists : front.toList ++ back.toList = kept.toList ++ dropped.toList := by
      rw [← String.toList_append, ← String.toList_append, ← hreason, ← h.split]
    rcases List.append_eq_append_iff.mp hlists with ⟨more, hkept, -⟩ | ⟨more, hfront, hdropped⟩
    · simp only [Utf8.encode, hkept, List.flatMap_append, List.length_append]
      omega
    · cases more with
      | nil => simp [Utf8.encode, hfront]
      | cons c more =>
          -- the next character would have to fit
          have hfull := h.full c (by simp [hdropped])
          simp only [Utf8.encode, hfront, List.flatMap_append, List.flatMap_cons,
            List.length_append] at hn hfull
          omega

/-- At most three bytes of the room are left over if a character is dropped. -/
theorem Cuts.length_of_long (h : Cuts code reason kept dropped)
    (hlong : 123 < (Utf8.encode reason).length) : 120 ≤ (Utf8.encode kept).length := by
  rw [h.split, Utf8.encode_append, List.length_append] at hlong
  have hroom := h.room
  cases hdropped : dropped.toList with
  | nil =>
      simp only [Utf8.encode, hdropped, List.flatMap_nil, List.length_nil] at hlong hroom
      omega
  | cons c cs =>
      have hfull := h.full c (by simp [hdropped])
      have hsize := Char.utf8Size_le_four c
      rw [String.length_utf8EncodeChar] at hfull
      omega

theorem Cuts.length_of_short (h : Cuts code reason kept dropped)
    (hshort : (Utf8.encode reason).length ≤ 123) :
    (Utf8.encode kept).length = (Utf8.encode reason).length := by
  have hgreatest := h.isGreatest
  have hle := hgreatest.2 ⟨hshort, .inl rfl⟩
  have hreason : (Utf8.encode reason).length =
      (Utf8.encode kept).length + (Utf8.encode dropped).length := by
    rw [h.split, Utf8.encode_append, List.length_append]
  omega

theorem Cuts.encode_kept (h : Cuts code reason kept dropped) :
    Utf8.encode kept = (Utf8.encode reason).take (Utf8.encode kept).length := by
  rw [h.split, Utf8.encode_append, List.take_left]

/-! ### Reading a payload -/

/-- The code and the reason that a payload carries. -/
def readPayload? (payload : Bytes) : Option (CloseCode × String) :=
  (ofValue? (Bytes.bigEndian (payload.take 2))).bind fun code =>
    (Utf8.decode? (payload.drop 2)).map (code, ·)

theorem bigEndian_bytes (code : CloseCode) : Bytes.bigEndian code.bytes = code.value := by
  cases code <;> decide

theorem ofValue?_value (code : CloseCode) : ofValue? code.value = some code := by
  cases code <;> decide

theorem readPayload?_bytes (code : CloseCode) (s : String) :
    readPayload? (code.bytes ++ Utf8.encode s) = some (code, s) := by
  have htwo : code.bytes.length = 2 := Bytes.length_ofNat 2 _
  rw [readPayload?, List.take_left' htwo, List.drop_left' htwo, bigEndian_bytes, ofValue?_value,
    Utf8.decode?_encode]
  rfl

/-- A close frame has a header of two bytes, whatever its reason. -/
theorem length_sentHeader (code : CloseCode) (reason : String) :
    (Frame.sentHeader .close (code.payload reason).length).length = 2 := by
  have hlength : (code.payload reason).length ≤ 125 := length_payload_le code reason
  simp [Frame.sentHeader, Frame.encodeLength, hlength]

/-- **A close payload carries its code and as much of its reason as there is room for.**  The reason
is cut at its last boundary of characters that leaves the payload within 125 bytes, so that nothing
is cut off a reason of 123 bytes or less and at least 120 bytes are kept of a longer one.  The frame
with this payload has a header of two bytes, and its code and what was kept of its reason are read
back from it. -/
theorem payload_longest (code : CloseCode) (reason : String) :
    ∃ e, IsGreatest {n | n ≤ 123 ∧ Utf8.IsBoundary reason n} e ∧
      code.payload reason = Bytes.ofNat 2 code.value ++ (Utf8.encode reason).take e ∧
      (code.payload reason).length ≤ 125 ∧
      ((Utf8.encode reason).length ≤ 123 → e = (Utf8.encode reason).length) ∧
      (123 < (Utf8.encode reason).length → 120 ≤ e) ∧
      ∃ kept dropped, reason = kept ++ dropped ∧
        Utf8.encode kept = (Utf8.encode reason).take e ∧ ∀ rest, ∃ frame,
        Frame.decode? (Frame.encode .close (code.payload reason) ++ rest) =
          some (frame, Frame.encode .close (code.payload reason) ++ rest) ∧
        frame.header.length = 2 ∧
        frame.length = 2 + (code.payload reason).length ∧
        frame.header.opcode = Opcode.close.value ∧
        readPayload? frame.payload = some (code, kept) := by
  obtain ⟨kept, dropped, h⟩ := exists_cuts code reason
  have hlimit : (code.payload reason).length ≤ 125 := length_payload_le code reason
  have hpayload := h.payload
  rw [h.encode_kept] at hpayload
  refine ⟨(Utf8.encode kept).length, h.isGreatest, hpayload, hlimit, h.length_of_short,
    h.length_of_long, kept, dropped, h.split, h.encode_kept, fun rest => ?_⟩
  refine ⟨_, Frame.decode?_encode .close (by omega) rest, length_sentHeader code reason, ?_, rfl, ?_⟩
  · have hheader := length_sentHeader code reason
    dsimp only [Frame.sentHeader] at hheader
    simp only [Frame.encode, List.length_append, List.length_cons]
    omega
  · rw [h.payload]
    exact readPayload?_bytes code kept

/-- A reason of a hundred characters of two bytes each, cut in front of the 62nd. -/
theorem payload_longest_umlauts :
    let reason := String.ofList (List.replicate 100 'ä')
    123 < (Utf8.encode reason).length ∧ ∃ e, 120 ≤ e ∧
      IsGreatest {n | n ≤ 123 ∧ Utf8.IsBoundary reason n} e ∧
      CloseCode.protocolError.payload reason = 3 :: 234 :: (Utf8.encode reason).take e := by
  intro reason
  have hlong : 123 < (Utf8.encode reason).length := by decide +kernel
  obtain ⟨e, hgreatest, hpayload, -, -, hkept, -⟩ := payload_longest .protocolError reason
  exact ⟨hlong, e, hkept hlong, hgreatest, hpayload⟩

end WsRelay.CloseCode
