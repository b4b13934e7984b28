import WsRelay.Handshake
import WsRelay.Proofs.Text.Sequences
/-! # The answer that grants the upgrade

The answer is made of lines (`answerLines`), each ended by carriage return and line feed: the
status, three headers that every answer has, one more if a subprotocol is accepted, and the empty
line.
The key in it is written in the characters of base64, so that the subprotocol is the only part that
could bring line ends of its own.

If it brings no line end, the lines that are found are those that were put together
(`linesBy_crlf_switching`); if it has neither carriage returns nor line feeds, the same goes for a
reader who looks for line feeds alone (`linesBy_lf_switching`). -/

namespace WsRelay

namespace Base64

theorem plain_sextet (n : Nat) : sextet n ≠ '\r' ∧ sextet n ≠ '\n' := by
  have halphabet : Text.Plain (String.ofList alphabet) := by decide
  rw [Text.Plain, String.toList_ofList] at halphabet
  unfold sextet
  rw [List.getD_eq_getElem?_getD]
  cases h : alphabet[n % 64]? with
  | none => decide
  | some c => exact halphabet c (List.mem_of_getElem? h)

/-- Base64 has no line ends. -/
theorem plain_encode (bs : Bytes) : Text.Plain (encode bs) := by
  have hpad : '=' ≠ '\r' ∧ '=' ≠ '\n' := by decide
  rw [Text.Plain, encode, String.toList_ofList]
  induction bs using encodeList.induct with
  | case1 => exact List.forall_mem_nil _
  | case2 a =>
      simp only [encodeList, List.forall_mem_cons]
      exact ⟨plain_sextet _, plain_sextet _, hpad, hpad, List.forall_mem_nil _⟩
  | case3 a b =>
      simp only [encodeList, List.forall_mem_cons]
      exact ⟨plain_sextet _, plain_sextet _, plain_sextet _, hpad, List.forall_mem_nil _⟩
  | case4 a b c rest ih =>
      simp only [encodeList, List.forall_mem_cons]
      exact ⟨plain_sextet _, plain_sextet _, plain_sextet _, plain_sextet _, ih⟩

end Base64

namespace Handshake

open Utf8 (encode)

/-- What a line names the accepted subprotocol after. -/
def protocolHeader : String := "Sec-WebSocket-Protocol: "

/-- The lines of the answer, without their ends. -/
def answerLines (accept : String) (protocol : Option String) : List String :=
  ["HTTP/1.1 101 Switching Protocols", "Upgrade: websocket", "Connection: Upgrade",
    "Sec-WebSocket-Accept: " ++ accept] ++
  (protocol.map (protocolHeader ++ ·)).toList ++ [""]

/-- The answer is its lines, each with its end. -/
theorem encode_switching (accept : String) (protocol : Option String) :
    encode (switching accept protocol) =
      ((answerLines accept protocol).map encode).flatMap (· ++ Bytes.lineEnd) := by
  have hend : encode "\r\n" = Bytes.lineEnd := by decide
  have hempty : encode "" = [] := rfl
  have hstatus : "HTTP/1.1 101 Switching Protocols\r\n" =
      "HTTP/1.1 101 Switching Protocols" ++ "\r\n" := rfl
  have hupgrade : "Upgrade: websocket\r\n" = "Upgrade: websocket" ++ "\r\n" := rfl
  have hconnection : "Connection: Upgrade\r\n" = "Connection: Upgrade" ++ "\r\n" := rfl
  unfold switching
  rw [hstatus, hupgrade, hconnection]
  cases protocol with
  | none =>
      simp only [answerLines, Utf8.encode_append, hend, Option.map_none, Option.toList_none,
        List.append_nil, List.map_append, List.map_cons, List.map_nil, List.flatMap_append,
        List.flatMap_cons, List.flatMap_nil, List.append_assoc, hempty, List.nil_append]
  | some name =>
      simp only [answerLines, protocolHeader, Utf8.encode_append, hend, Option.map_some,
        Option.toList_some, List.map_append, List.map_cons, List.map_nil, List.flatMap_append,
        List.flatMap_cons, List.flatMap_nil, List.append_nil, List.append_assoc, hempty,
        List.nil_append]

theorem plain_acceptKey (key : String) : Text.Plain (acceptKey key) :=
  Base64.plain_encode _

section
variable {accept : String} {protocol : Option String}

theorem mem_answerLines {line : String} : line ∈ answerLines accept protocol ↔
    line ∈ answerLines accept none ∨ ∃ name ∈ protocol, line = protocolHeader ++ name := by
  cases protocol with
  | none => simp
  | some name =>
      simp only [answerLines, Option.map_some, Option.map_none, Option.toList_some,
        Option.toList_none, List.append_nil, List.mem_append, List.mem_singleton,
        Option.mem_some_iff, exists_eq_left']
      exact or_right_comm

/-- Without the subprotocol, there are no line ends but those between the lines. -/
theorem plain_answerLines_none (haccept : Text.Plain accept) :
    ∀ line ∈ answerLines accept none, Text.Plain line := by
  have hkey : Text.Plain ("Sec-WebSocket-Accept: " ++ accept) :=
    Text.Plain.append (by decide) haccept
  simp only [answerLines, Option.map_none, Option.toList_none, List.append_nil, List.cons_append,
    List.nil_append, List.forall_mem_cons]
  exact ⟨by decide, by decide, by decide, hkey, by decide, List.forall_mem_nil _⟩

theorem plain_protocolHeader : Text.Plain protocolHeader := by decide

theorem oneLine_answerLines (haccept : Text.Plain accept)
    (hprotocol : ∀ name ∈ protocol, Text.OneLine name) :
    ∀ line ∈ answerLines accept protocol, Text.OneLine line := by
  intro line hline
  rcases mem_answerLines.mp hline with hfixed | ⟨name, hname, rfl⟩
  · exact (plain_answerLines_none haccept line hfixed).oneLine
  · exact Text.OneLine.append plain_protocolHeader (hprotocol name hname)

theorem plain_answerLines (haccept : Text.Plain accept)
    (hprotocol : ∀ name ∈ protocol, Text.Plain name) :
    ∀ line ∈ answerLines accept protocol, Text.Plain line := by
  intro line hline
  rcases mem_answerLines.mp hline with hfixed | ⟨name, hname, rfl⟩
  · exact plain_answerLines_none haccept line hfixed
  · exact plain_protocolHeader.append (hprotocol name hname)

/-- **The lines that are found are those that were put together** if the subprotocol has no line
end. -/
theorem linesBy_crlf_switching (haccept : Text.Plain accept)
    (hprotocol : ∀ name ∈ protocol, Text.OneLine name) :
    Bytes.linesBy .crlf (encode (switching accept protocol)) =
      (answerLines accept protocol).map encode ++ [[]] := by
  rw [encode_switching]
  refine Bytes.linesBy_crlf fun line hline => ?_
  obtain ⟨text, htext, rfl⟩ := List.mem_map.mp hline
  exact Utf8.oneLine_encode (oneLine_answerLines haccept hprotocol text htext)

/-- So are those that are found by line feeds alone, up to the carriage returns before them, if it
has neither carriage returns nor line feeds. -/
theorem linesBy_lf_switching (haccept : Text.Plain accept)
    (hprotocol : ∀ name ∈ protocol, Text.Plain name) :
    Bytes.linesBy .lf (encode (switching accept protocol)) =
      (answerLines accept protocol).map (encode · ++ [13]) ++ [[]] := by
  have hplain : ∀ line ∈ (answerLines accept protocol).map encode, Bytes.Plain line := by
    intro line hline
    obtain ⟨text, htext, rfl⟩ := List.mem_map.mp hline
    exact Utf8.plain_encode.mpr (plain_answerLines haccept hprotocol text htext)
  rw [encode_switching, Bytes.linesBy_lf hplain, List.map_map]
  rfl

/-- What stands behind a line feed in the subprotocol is a line of its own to such a reader. -/
theorem mem_linesBy_lf_switching (accept before : String) {after : String}
    (hafter : Text.Plain after) : encode (after ++ "\r") ∈
      Bytes.linesBy .lf (encode (switching accept (some (before ++ "\n" ++ after)))) := by
  have hfeed : encode "\n" = [10] := by decide
  have hreturn : encode "\r" = [13] := by decide
  have hend : encode "\r\n" = [13] ++ [10] := by decide
  have hline : ∀ b ∈ encode (after ++ "\r"), b ≠ 10 := by
    rw [Utf8.encode_append, hreturn]
    exact List.forall_mem_append.mpr ⟨fun b hb => (Utf8.plain_encode.mpr hafter b hb).2,
      List.forall_mem_singleton.mpr (by decide)⟩
  obtain ⟨front, hfront⟩ : ∃ front, encode (switching accept (some (before ++ "\n" ++ after))) =
      front ++ [10] ++ (encode (after ++ "\r") ++ [10] ++ ([13] ++ [10])) := by
    unfold switching
    simp only [Utf8.encode_append, hfeed, hreturn, hend, ← List.append_assoc]
    exact ⟨_, rfl⟩
  rw [hfront]
  exact Bytes.mem_linesBy_lf front hline

end

end Handshake

end WsRelay
