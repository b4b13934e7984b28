import Mathlib.Data.List.Nodup
import WsRelay.Proofs.Handshake.Offers
import WsRelay.Proofs.Text.Blanks
import WsRelay.Proofs.Text.Pieces
/-! # What header lines leave behind

A request is fed lines in any order, and some are refused.  What it says in the end is said without
going through them one by one (`gathered`): the last version and the last key count, one line is
enough for each half of the upgrade, offers are kept where they stand first, and of the other fields
the first few are kept (`foldl_heed`, `Request.collect_eq_gathered`).

Only the order of fields of the same kind shows in that (`gathered_congr`): those with a version,
those with a key, those with offers, and all others. -/

namespace WsRelay

namespace Handshake

variable {r : Request} {fields : List (String × String)} {path : String}

/-! ### Offers -/

/-- Values that are joined by commas offer what they offer one by one. -/
theorem offersOf_intercalate (vs : List String) :
    offersOf (",".intercalate vs) = vs.flatMap offersOf := by
  cases vs with
  | nil =>
      rw [String.intercalate_nil]
      decide
  | cons v vs =>
      have hcomma : "," = String.singleton ',' := by decide
      rw [offersOf, hcomma, Text.pieces_intercalate (List.cons_ne_nil v vs), List.map_flatMap,
        List.filter_flatMap]
      rfl

/-- The offers that have been made, with one more. -/
def offered (made : List String) (offer : String) : List String :=
  if offer ∈ made then made else made ++ [offer]

/-- Offers that are made one after the other are kept where they stand first. -/
theorem foldl_offered {made : List String} (h : made.eraseDups = made) (os : List String) :
    os.foldl offered made = (made ++ os).eraseDups := by
  induction os generalizing made with
  | nil => rw [List.append_nil, h, List.foldl_nil]
  | cons o os ih =>
      rw [List.foldl_cons, offered]
      split
      · next hmem =>
        have hagain : ¬ made.contains o = false := by simpa using hmem
        rw [ih h, List.eraseDups_append, List.eraseDups_append, List.cons_removeAll,
          if_neg hagain]
      · next hmem =>
        have hnew : made.contains o = false := by simpa using hmem
        have hmade : (made ++ [o]).eraseDups = made ++ [o] := by
          rw [List.eraseDups_append, h, List.cons_removeAll, if_pos hnew, List.nil_removeAll]
          rfl
        rw [ih hmade, List.append_assoc, List.singleton_append]

theorem nodup_eraseDups (os : List String) : os.eraseDups.Nodup := by
  match os with
  | [] => exact List.nodup_nil
  | o :: os =>
      have hshorter := List.length_filter_le (fun b => !b == o) os
      rw [List.eraseDups_cons, List.nodup_cons, List.mem_eraseDups, List.mem_filter]
      refine ⟨fun h => ?_, nodup_eraseDups _⟩
      simp at h
termination_by os.length

theorem eraseDups_sublist (os : List String) : os.eraseDups.Sublist os := by
  match os with
  | [] => exact List.Sublist.slnil
  | o :: os =>
      have hshorter := List.length_filter_le (fun b => !b == o) os
      rw [List.eraseDups_cons]
      exact ((eraseDups_sublist _).trans List.filter_sublist).cons_cons o
termination_by os.length

theorem protocols_foldl (r : Request) (os : List String) :
    (os.foldl Request.addOffer r).protocols = os.foldl offered r.protocols := by
  induction os generalizing r with
  | nil => rfl
  | cons o os ih => rw [List.foldl_cons, List.foldl_cons, ih, Request.protocols_addOffer, offered]

/-- The offers of all fields are made one after the other. -/
theorem protocols_collect (r : Request) (fields : List (String × String)) :
    (r.collect fields).protocols = (offers fields).foldl offered r.protocols := by
  induction fields generalizing r with
  | nil => rfl
  | cons field fields ih =>
      obtain ⟨tag, value⟩ := field
      show ((r.set tag value).collect fields).protocols = _
      rw [ih, Request.protocols_set, protocols_foldl, offers_cons, List.foldl_append]

/-! ### Other fields -/

/-- What a field is about. -/
inductive Kind where
  | version
  | key
  | protocol
  | other
deriving DecidableEq, Repr

/-- What fields with a tag are about. -/
def kindOf (tag : String) : Kind :=
  if tag = "Sec-WebSocket-Version" then .version
  else if tag = "Sec-WebSocket-Key" then .key
  else if tag = protocolTag then .protocol
  else .other

/-- The field has no meaning: it is about nothing that counts, or does not say what would. -/
def isPlain (field : String × String) : Bool :=
  kindOf field.1 == .other &&
    !(field.1 == "Upgrade" && Request.asksForWebSocket field.2) &&
    !(field.1 == "Connection" && Request.asksForUpgrade field.2)

theorem headers_addOffers (r : Request) (value : String) :
    (r.addOffers value).headers = r.headers := by
  unfold Request.addOffers
  generalize ((Text.pieces ',' value).map Text.trim).filter (· ≠ "") = os
  induction os generalizing r with
  | nil => rfl
  | cons o os ih =>
      rw [List.foldl_cons, ih, Request.addOffer]
      split <;> rfl

/-- The header that a field makes. -/
def header (field : String × String) : Header :=
  ⟨field.1, field.2⟩

theorem headers_keep (h : r.headers.length ≤ headerLimit) (tag value : String) :
    (r.keep tag value).headers = (r.headers ++ [header (tag, value)]).take headerLimit := by
  unfold Request.keep
  split
  · next hroom =>
    rw [List.take_of_length_le (by rw [List.length_append]; exact hroom)]
    rfl
  · next hfull =>
    rw [List.take_append_of_le_length (by omega), List.take_of_length_le h]

/-- What a field adds to the headers. -/
theorem headers_set (h : r.headers.length ≤ headerLimit) (tag value : String) :
    (r.set tag value).headers =
      (r.headers ++ ([(tag, value)].filter isPlain).map header).take headerLimit := by
  have hnothing (hplain : isPlain (tag, value) = false) :
      r.headers = (r.headers ++ ([(tag, value)].filter isPlain).map header).take headerLimit := by
    rw [List.filter_cons, hplain]
    simp [List.take_of_length_le h]
  have hset := Request.sets r tag value
  generalize r.set tag value = s at hset ⊢
  cases hset with
  | version htag | key htag => exact hnothing (by simp [isPlain, kindOf, htag])
  | upgrade htag hasks | connection htag hasks => exact hnothing (by simp [isPlain, htag, hasks])
  | offers htag =>
      rw [headers_addOffers]
      exact hnothing (by rw [htag]; rfl)
  | plain hversion hkey hupgrade hconnection hprotocol =>
      have hplain : isPlain (tag, value) = true := by
        simp [isPlain, kindOf, protocolTag, hversion, hkey, hprotocol, hupgrade, hconnection]
      rw [headers_keep h, List.filter_cons, hplain]
      rfl

/-- What is cut off before more is added would be cut off in the end. -/
theorem take_take_append {α : Type} (n : Nat) (xs ys : List α) :
    (xs.take n ++ ys).take n = (xs ++ ys).take n := by
  have hroom : n - min n xs.length = n - xs.length := by omega
  rw [List.take_append, List.take_append, List.take_take, Nat.min_self, List.length_take, hroom]

theorem headers_collect (h : r.headers.length ≤ headerLimit) (fields : List (String × String)) :
    (r.collect fields).headers =
      (r.headers ++ (fields.filter isPlain).map header).take headerLimit := by
  induction fields generalizing r with
  | nil =>
      rw [List.filter_nil, List.map_nil, List.append_nil, List.take_of_length_le h]
      rfl
  | cons field fields ih =>
      obtain ⟨tag, value⟩ := field
      show ((r.set tag value).collect fields).headers = _
      have hset := headers_set h tag value
      rw [ih (by rw [hset]; exact List.length_take_le _ _), hset, take_take_append,
        List.append_assoc, ← List.map_append, ← List.filter_append, List.singleton_append]

/-! ### The whole request -/

/-- What header fields say, all taken together, to a client that asks for a path. -/
def gathered (path : String) (fields : List (String × String)) : Request where
  path := path
  version := ((values "Sec-WebSocket-Version" fields).getLast?.map fun value =>
    min versionTop (Text.decimalValue value)).getD 0
  key := (values "Sec-WebSocket-Key" fields).getLast?.map Text.trim
  upgrade := (values "Upgrade" fields).any Request.asksForWebSocket
  connection := (values "Connection" fields).any Request.asksForUpgrade
  protocols := (offers fields).eraseDups
  headers := ((fields.filter isPlain).map header).take headerLimit

/-- The field's value has no blank in front. -/
def IsTrimmed (field : String × String) : Prop :=
  Text.trimStart field.2 = field.2

theorem trim_of_mem_values {tag value : String} (h : ∀ field ∈ fields, IsTrimmed field)
    (hvalue : value ∈ values tag fields) : Text.trimEnd value = Text.trim value := by
  obtain ⟨field, hfield, hsame⟩ := List.mem_filterMap.mp hvalue
  dsimp only at hsame
  split at hsame
  · cases hsame
    rw [Text.trim, h field hfield]
  · cases hsame

/-- **What fields leave in a request**, one after the other, is what they say taken together. -/
theorem collect_eq_gathered (path : String) (h : ∀ field ∈ fields, IsTrimmed field) :
    Request.collect { path } fields = gathered path fields := by
  have hessence := Request.essence_collect { path } fields
  simp only [Request.essence, Prod.mk.injEq] at hessence
  obtain ⟨hpath, hversion, hkey, hupgrade, hconnection⟩ := hessence
  have hprotocols := protocols_collect { path } fields
  rw [foldl_offered List.eraseDups_nil, List.nil_append] at hprotocols
  have hheaders := headers_collect (r := { path }) (Nat.zero_le _) fields
  rw [List.nil_append] at hheaders
  have hread : Text.decimalPrefix versionTop =
      fun value => min versionTop (Text.decimalValue value) :=
    funext (Text.decimalPrefix_eq versionTop)
  have htrim : (values "Sec-WebSocket-Key" fields).getLast?.map Text.trimEnd =
      (values "Sec-WebSocket-Key" fields).getLast?.map Text.trim :=
    Option.map_congr fun value hvalue => trim_of_mem_values h (List.mem_of_mem_getLast? hvalue)
  rw [hread] at hversion
  rw [Option.or_none, htrim] at hkey
  rw [Bool.false_or] at hupgrade hconnection
  generalize Request.collect { path } fields = r at *
  obtain ⟨path', version, key, upgrade, connection, protocols, headers⟩ := r
  simp only [gathered, Request.mk.injEq]
  exact ⟨hpath, hversion, hkey, hupgrade, hconnection, hprotocols, hheaders⟩

/-! ### Lines -/

/-- The field of a header line that is accepted. -/
def accepted? (line : Bytes) : Option (String × String) :=
  match refusal? line with
  | some _ => none
  | none => field? line

/-- The request after one more line; a line that is refused leaves it as it is, and so does the
empty line at the end. -/
def Request.heed (r : Request) (line : Bytes) : Request :=
  match r.feed line with
  | .ok (.header s) => s
  | _ => r

theorem isTrimmed_of_accepted? {line : Bytes} {field : String × String}
    (h : accepted? line = some field) : IsTrimmed field := by
  unfold accepted? at h
  split at h
  · cases h
  · obtain ⟨⟨tag, value⟩, -, rfl⟩ := Option.map_eq_some_iff.mp h
    exact Text.trimStart_trimStart value

/-- A line is accepted if it has a field, with which the request is set. -/
theorem feed_eq_header_iff {s : Request} {line : Bytes} : r.feed line = .ok (.header s) ↔
    ∃ tag value, accepted? line = some (tag, value) ∧ s = r.set tag value := by
  unfold accepted?
  cases hrefusal : refusal? line with
  | some status =>
      obtain ⟨e, he, -⟩ := Request.feed_refused hrefusal r
      rw [he]
      exact iff_of_false nofun nofun
  | none =>
      by_cases hne : line = []
      · subst hne
        rw [field?_eq_none_iff.mpr List.not_mem_nil]
        exact iff_of_false nofun nofun
      · obtain ⟨tag, value, hfield, hfeed⟩ := Request.feed_field hrefusal hne r
        rw [hfeed, hfield]
        constructor
        · rintro ⟨⟩
          exact ⟨tag, value, rfl, rfl⟩
        · rintro ⟨_, _, ⟨⟩, rfl⟩
          rfl

theorem heed_eq (r : Request) (line : Bytes) :
    r.heed line = r.collect (accepted? line).toList := by
  unfold Request.heed
  split
  · next s hfed =>
    obtain ⟨tag, value, haccepted, rfl⟩ := feed_eq_header_iff.mp hfed
    rw [haccepted]
    rfl
  · next hnot =>
    cases haccepted : accepted? line with
    | none => rfl
    | some field => exact absurd (feed_eq_header_iff.mpr ⟨_, _, haccepted, rfl⟩) (hnot _)

/-- Lines leave what their fields do. -/
theorem foldl_heed (r : Request) (lines : List Bytes) :
    lines.foldl Request.heed r = r.collect (lines.filterMap accepted?) := by
  induction lines generalizing r with
  | nil => rfl
  | cons line lines ih =>
      rw [List.foldl_cons, ih, heed_eq, Request.collect, Request.collect, Request.collect,
        ← List.foldl_append, List.filterMap_cons]
      cases accepted? line <;> rfl

theorem foldl_heed_eq_gathered (path : String) (lines : List Bytes) :
    lines.foldl Request.heed { path } = gathered path (lines.filterMap accepted?) := by
  rw [foldl_heed]
  refine collect_eq_gathered path fun field hfield => ?_
  obtain ⟨line, -, hline⟩ := List.mem_filterMap.mp hfield
  exact isTrimmed_of_accepted? hline

/-! ### Other orders -/

/-- Fields of the same kind stand in the same order. -/
def SameOrders (fields fields' : List (String × String)) : Prop :=
  ∀ kind, fields.filter (kindOf ·.1 = kind) = fields'.filter (kindOf ·.1 = kind)

variable {fields' : List (String × String)}

theorem values_filter (tag : String) (fields : List (String × String)) :
    values tag (fields.filter (kindOf ·.1 = kindOf tag)) = values tag fields := by
  rw [values, List.filterMap_filter]
  refine List.filterMap_congr fun field _ => ?_
  by_cases h : field.1 = tag
  · simp [h]
  · simp [h]

theorem SameOrders.values (h : SameOrders fields fields') (tag : String) :
    values tag fields = values tag fields' := by
  rw [← values_filter, h, values_filter]

theorem SameOrders.plain (h : SameOrders fields fields') :
    fields.filter isPlain = fields'.filter isPlain := by
  have hother (fs : List (String × String)) :
      fs.filter isPlain = (fs.filter (kindOf ·.1 = .other)).filter isPlain := by
    rw [List.filter_filter]
    refine List.filter_congr fun field _ => ?_
    cases hplain : isPlain field with
    | false => rw [Bool.false_and]
    | true =>
        simp only [isPlain, Bool.and_eq_true, beq_iff_eq] at hplain
        rw [Bool.true_and, decide_eq_true hplain.1.1]
  rw [hother, h, ← hother]

/-- Only the order of fields of the same kind shows in what they say. -/
theorem gathered_congr (path : String) (h : SameOrders fields fields') :
    gathered path fields = gathered path fields' := by
  unfold gathered offers
  rw [h.plain, h.values, h.values, h.values, h.values, h.values]

/-- **What header lines leave behind, in closed form.**  Lines are fed to a fresh request, and those
that are refused leave it as it is.  In the end it says what the fields of the accepted lines say
taken together: the last version, never wrapped, and the last key count; one field is enough for
each half of the upgrade; of the offers, each is kept once, where it stands first, as if all had
been made in one line with commas between them; and the first ten of the other fields are kept,
those among them that only look like half of an upgrade.  So the order of fields of different kinds
makes no difference, neither to the request nor to whether it is granted. -/
theorem foldl_heed_closed (path : String) (lines : List Bytes) :
    let fields := lines.filterMap accepted?
    let r := lines.foldl Request.heed { path }
    (∀ (s t : Request) (line : Bytes), s.feed line = .ok (.header t) ↔
      ∃ tag value, accepted? line = some (tag, value) ∧ t = s.set tag value) ∧
      r = gathered path fields ∧
      (r.protocols.Nodup ∧ r.protocols.Sublist (offers fields) ∧
        ∀ offer, offer ∈ r.protocols ↔ offer ∈ offers fields) ∧
      r.protocols = (Request.set { path } protocolTag
        (",".intercalate (values protocolTag fields))).protocols ∧
      ∀ lines' : List Bytes, SameOrders fields (lines'.filterMap accepted?) →
        lines'.foldl Request.heed { path } = r ∧
          (lines'.foldl Request.heed { path }).grant = r.grant := by
  intro fields r
  have hr : r = gathered path fields := foldl_heed_eq_gathered path lines
  have hprotocols : r.protocols = (offers fields).eraseDups := by rw [hr, gathered]
  refine ⟨fun _ _ _ => feed_eq_header_iff, hr, ?_, ?_, fun lines' horders => ?_⟩
  · rw [hprotocols]
    exact ⟨nodup_eraseDups _, eraseDups_sublist _, fun offer => List.mem_eraseDups⟩
  · rw [hprotocols, Request.protocols_set, if_pos rfl, protocols_foldl,
      foldl_offered List.eraseDups_nil, List.nil_append, offersOf_intercalate, offers]
  · have hsame : lines'.foldl Request.heed { path } = r := by
      rw [foldl_heed_eq_gathered, ← gathered_congr path horders, hr]
    exact ⟨hsame, by rw [hsame]⟩

/-- Two orders of the same lines; some are refused, or only look like half of an upgrade. -/
theorem foldl_heed_closed_two_orders :
    let lines : List Bytes := ["Connection: close", "Sec-WebSocket-Protocol: b,a", " folded",
      "Sec-WebSocket-Version: 130", "Upgrade: WebSocket ", "Sec-WebSocket-Key: k ",
      "Sec-WebSocket-Version: 13x", "Connection: Upgrade",
      "Sec-WebSocket-Protocol: a, ,c"].map Utf8.encode
    let lines' : List Bytes := ["Sec-WebSocket-Version: 130", "Sec-WebSocket-Version: 13x",
      "Sec-WebSocket-Protocol: b,a", "Sec-WebSocket-Protocol: a, ,c", "Connection: close",
      "Sec-WebSocket-Key: k ", "Upgrade: WebSocket ", "no colon",
      "Connection: Upgrade"].map Utf8.encode
    SameOrders (lines.filterMap accepted?) (lines'.filterMap accepted?) ∧
      lines'.foldl Request.heed { path := "/" } = lines.foldl Request.heed { path := "/" } ∧
      (lines'.foldl Request.heed { path := "/" }).grant =
        (lines.foldl Request.heed { path := "/" }).grant ∧
      lines.foldl Request.heed { path := "/" } =
        { path := "/", version := 13, key := some "k", upgrade := true, connection := true,
          protocols := ["b", "a", "c"], headers := [⟨"Connection", "close"⟩] } := by
  intro lines lines'
  have hfields : lines.filterMap accepted? =
      [("Connection", "close"), ("Sec-WebSocket-Protocol", "b,a"),
        ("Sec-WebSocket-Version", "130"), ("Upgrade", "WebSocket "), ("Sec-WebSocket-Key", "k "),
        ("Sec-WebSocket-Version", "13x"), ("Connection", "Upgrade"),
        ("Sec-WebSocket-Protocol", "a, ,c")] := by decide +kernel
  have hfields' : lines'.filterMap accepted? =
      [("Sec-WebSocket-Version", "130"), ("Sec-WebSocket-Version", "13x"),
        ("Sec-WebSocket-Protocol", "b,a"), ("Sec-WebSocket-Protocol", "a, ,c"),
        ("Connection", "close"), ("Sec-WebSocket-Key", "k "), ("Upgrade", "WebSocket "),
        ("Connection", "Upgrade")] := by decide +kernel
  have horders : SameOrders (lines.filterMap accepted?) (lines'.filterMap accepted?) := by
    rw [hfields, hfields']
    intro kind
    cases kind <;> decide +kernel
  obtain ⟨-, -, -, -, hreorder⟩ := foldl_heed_closed "/" lines
  obtain ⟨hsame, hgrant⟩ := hreorder lines' horders
  refine ⟨horders, hsame, hgrant, ?_⟩
  rw [foldl_heed_eq_gathered, hfields]
  decide +kernel

end Handshake

end WsRelay
