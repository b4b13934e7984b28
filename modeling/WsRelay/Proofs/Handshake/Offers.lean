import WsRelay.Proofs.Handshake.Fields
import WsRelay.Proofs.Text.Lines
import WsRelay.Proofs.Text.Pieces
/-! # What a client offers

A client may name subprotocols in several header lines and several in each; its `offers` are all of
them in its order, as often as it makes them.  A request keeps each of them once, where it stands
first (`Request.find?_collect`), so the first offer of some kind is the same in both.

On the wire an offer is a stretch of bytes between commas (`stretchesOf`), which is read as text and
trimmed (`offerOf`).  Commas and colons are found in the bytes where they are found in the text
(`offers_filterMap`), so nothing but the characters that a stretch has malformed is read otherwise
than it was written (`exists_around`).

Offers are stretches of header lines, and no line feed follows a carriage return in them
(`Request.oneLine_feed`). -/

namespace WsRelay.Handshake

/-- The tag of the header lines that offer subprotocols. -/
def protocolTag : String := "Sec-WebSocket-Protocol"

/-- The offers of one header line. -/
def offersOf (value : String) : List String :=
  ((Text.pieces ',' value).map Text.trim).filter (· ≠ "")

/-- The offers of all fields, in the client's order. -/
def offers (fields : List (String × String)) : List String :=
  (values protocolTag fields).flatMap offersOf

theorem offers_cons (tag value : String) (fields : List (String × String)) :
    offers ((tag, value) :: fields) =
      (if tag = protocolTag then offersOf value else []) ++ offers fields := by
  rw [offers, values_cons]
  split
  · rw [List.flatMap_cons, offers]
  · rw [List.nil_append, offers]

theorem offers_append (fields more : List (String × String)) :
    offers (fields ++ more) = offers fields ++ offers more := by
  rw [offers, values, List.filterMap_append, List.flatMap_append]
  rfl

/-! ### Offers on the wire -/

/-- The stretches between commas of what a header line offers, as they are written there. -/
def stretchesOf (line : Bytes) : List Bytes :=
  match (Utf8.encode (protocolTag ++ ":")).isPrefixOf? line with
  | none => []
  | some value => value.splitOn 44

/-- What a stretch offers. -/
def offerOf (stretch : Bytes) : String :=
  Text.trim (Utf8.decodeLossy stretch)

/-- Blanks in front of a value make no other offers of it. -/
theorem offersOf_trimStart (value : String) : offersOf (Text.trimStart value) = offersOf value := by
  rw [offersOf, Text.map_trim_pieces (by decide), offersOf]

theorem offersOf_decodeLossy (bs : Bytes) :
    offersOf (Utf8.decodeLossy bs) = ((bs.splitOn 44).map offerOf).filter (· ≠ "") := by
  have hpieces : Text.pieces ',' (Utf8.decodeLossy bs) = (bs.splitOn 44).map Utf8.decodeLossy :=
    Utf8.pieces_decodeLossy (c := ',') (by decide) (by decide) bs
  rw [offersOf, hpieces, List.map_map]
  rfl

/-- A field has the tag of offers only if the line begins with it. -/
theorem isPrefix_of_field? {line : Bytes} {value : String}
    (h : field? line = some (protocolTag, value)) :
    Utf8.encode (protocolTag ++ ":") <+: line := by
  have hcolon : 58 ∈ line := by
    refine Classical.byContradiction fun hnone => ?_
    rw [field?_eq_none_iff.mpr hnone] at h
    cases h
  obtain ⟨x, y, rfl, hx⟩ := List.eq_append_cons_of_mem hcolon
  rw [field?_append hx] at h
  have htag : Utf8.decodeLossy x = protocolTag := (Prod.mk.inj (Option.some.inj h)).1
  rw [(Utf8.decodeLossy_eq_iff (by decide)).mp htag]
  exact ⟨y, by rw [Utf8.encode_append, List.append_assoc]; rfl⟩

/-- The offers of one header line. -/
theorem offers_field? (line : Bytes) :
    offers (field? line).toList = ((stretchesOf line).map offerOf).filter (· ≠ "") := by
  rw [stretchesOf]
  cases hprefix : (Utf8.encode (protocolTag ++ ":")).isPrefixOf? line with
  | some value =>
      obtain rfl := List.isPrefixOf?_eq_some_iff_append_eq.mp hprefix
      have hfield : field? (Utf8.encode (protocolTag ++ ":") ++ value) =
          some (protocolTag, Text.trimStart (Utf8.decodeLossy value)) := by
        have hnot : 58 ∉ Utf8.encode protocolTag := by decide +kernel
        have happend := field?_append hnot value
        rw [Utf8.decodeLossy_encode] at happend
        rw [Utf8.encode_append, List.append_assoc]
        exact happend
      rw [hfield, Option.toList_some, offers_cons, if_pos rfl, offersOf_trimStart,
        offersOf_decodeLossy]
      exact List.append_nil _
  | none =>
      cases hfield : field? line with
      | none => rfl
      | some field =>
          obtain ⟨tag, value⟩ := field
          have htag : tag ≠ protocolTag := by
            rintro rfl
            obtain ⟨rest, hrest⟩ := isPrefix_of_field? hfield
            rw [List.isPrefixOf?_eq_some_iff_append_eq.mpr hrest] at hprefix
            cases hprefix
          rw [Option.toList_some, offers_cons, if_neg htag]
          rfl

/-- **The offers of header lines** are those of their stretches. -/
theorem offers_filterMap (headers : List Bytes) :
    offers (headers.filterMap field?) =
      ((headers.flatMap stretchesOf).filter (offerOf · ≠ "")).map offerOf := by
  have hstretches : offers (headers.filterMap field?) =
      ((headers.flatMap stretchesOf).map offerOf).filter (· ≠ "") := by
    rw [List.filterMap_eq_flatMap_toList]
    induction headers with
    | nil => rfl
    | cons line headers ih =>
        rw [List.flatMap_cons, offers_append, offers_field?, ih, List.flatMap_cons, List.map_append,
          List.filter_append]
  rw [hstretches, List.filter_map, Function.comp_def]

/-- **What is offered stands in the stretch byte for byte**, with blanks around it, if the stretch is
well-formed. -/
theorem exists_around {stretch : Bytes} (h : Utf8.WellFormed stretch) :
    ∃ front back, Text.Blank front ∧ Text.Blank back ∧
      stretch = Utf8.encode front ++ Utf8.encode (offerOf stretch) ++ Utf8.encode back := by
  obtain ⟨text, rfl⟩ := h
  obtain ⟨front, back, hfront, hback, hsplit⟩ := (Text.trims_trim text).around
  refine ⟨front, back, hfront, hback, ?_⟩
  rw [offerOf, Utf8.decodeLossy_encode, ← Utf8.encode_append, ← Utf8.encode_append, ← hsplit]

namespace Request

variable {r : Request} {offer : String}

/-- What a field adds to the offers. -/
theorem protocols_set (r : Request) (tag value : String) :
    (r.set tag value).protocols =
      ((if tag = protocolTag then offersOf value else []).foldl addOffer r).protocols := by
  have h := sets r tag value
  generalize r.set tag value = s at h ⊢
  cases h with
  | version h | key h | upgrade h | connection h =>
      rw [h]
      rfl
  | offers h =>
      have h : tag = protocolTag := h
      rw [if_pos h]
      rfl
  | plain _ _ _ _ hprotocol =>
      have hprotocol : tag ≠ protocolTag := hprotocol
      rw [if_neg hprotocol]
      unfold keep
      split <;> rfl

theorem protocols_addOffer (r : Request) (offer : String) :
    (r.addOffer offer).protocols =
      if offer ∈ r.protocols then r.protocols else r.protocols ++ [offer] := by
  unfold addOffer
  simp only [List.contains_iff_mem]
  split <;> rfl

/-- The first offer of some kind is the same whether repeated offers are kept or not. -/
theorem find?_foldl (p : String → Bool) (r : Request) (os : List String) :
    (os.foldl addOffer r).protocols.find? p = (r.protocols ++ os).find? p := by
  induction os generalizing r with
  | nil => rw [List.foldl_nil, List.append_nil]
  | cons o os ih =>
      rw [List.foldl_cons, ih, protocols_addOffer]
      split
      · next hmem =>
        rw [List.find?_append, List.find?_append]
        cases hfound : r.protocols.find? p with
        | some found => rfl
        | none =>
            have hnot : ¬ p o = true := List.find?_eq_none.mp hfound o hmem
            rw [List.find?_cons_of_neg hnot]
      · rw [List.append_assoc, List.singleton_append]

/-- **The first offer of some kind** that a request keeps is the first that the client made. -/
theorem find?_collect (p : String → Bool) (r : Request) (fields : List (String × String)) :
    (r.collect fields).protocols.find? p = (r.protocols ++ offers fields).find? p := by
  induction fields generalizing r with
  | nil => rw [collect, List.foldl_nil, offers]; simp [values]
  | cons field fields ih =>
      obtain ⟨tag, value⟩ := field
      show ((r.set tag value).collect fields).protocols.find? p = _
      rw [ih, List.find?_append, protocols_set, find?_foldl, offers_cons, ← List.append_assoc]
      exact List.find?_append.symm

theorem mem_foldl {os : List String} :
    offer ∈ (os.foldl addOffer r).protocols ↔ offer ∈ r.protocols ∨ offer ∈ os := by
  have hfound (l : List String) : offer ∈ l ↔ (l.find? (· == offer)).isSome = true := by
    simp [List.find?_isSome]
  rw [hfound, find?_foldl, ← hfound, List.mem_append]

/-! ### Offers in one line -/

theorem oneLine_of_mem_offersOf {value : String} (hvalue : Text.OneLine value)
    (h : offer ∈ offersOf value) : Text.OneLine offer := by
  obtain ⟨piece, hpiece, rfl⟩ := List.mem_map.mp (List.mem_of_mem_filter h)
  exact hvalue.within ((Text.trim_within piece).trans (Text.pieces_within hpiece))

/-- The value of a line's field is a stretch of the line. -/
theorem oneLine_of_cut? {line : Bytes} {tag value : String} (hline : Bytes.OneLine line)
    (hcut : Text.cut? ':' (Utf8.decodeLossy line) = some (tag, value)) :
    Text.OneLine (Text.trimStart value) :=
  (Utf8.oneLine_decodeLossy hline).within
    ((Text.trimStart_within value).trans (Text.cut?_within hcut))

/-- Offers have no line end in them, as the lines have none that they were made in. -/
theorem oneLine_of_mem_offers {headers : List Bytes} (hheaders : ∀ l ∈ headers, Bytes.OneLine l)
    (h : offer ∈ offers (headers.filterMap field?)) : Text.OneLine offer := by
  obtain ⟨value, hvalue, hoffer⟩ := List.mem_flatMap.mp h
  refine oneLine_of_mem_offersOf ?_ hoffer
  obtain ⟨⟨tag, value'⟩, hfield, hsame⟩ := List.mem_filterMap.mp hvalue
  obtain ⟨l, hl, hl'⟩ := List.mem_filterMap.mp hfield
  obtain ⟨⟨tag', cut⟩, hcut, heq⟩ := Option.map_eq_some_iff.mp hl'
  cases heq
  dsimp only at hsame
  split at hsame
  · cases hsame
    exact oneLine_of_cut? (hheaders l hl) hcut
  · cases hsame

/-- **The offers that a line adds** have no line end in them either. -/
theorem oneLine_feed {line : Bytes} {r' : Request} (hline : Bytes.OneLine line)
    (hr : ∀ offer ∈ r.protocols, Text.OneLine offer) (h : r.feed line = .ok (.header r')) :
    ∀ offer ∈ r'.protocols, Text.OneLine offer := by
  unfold feed at h
  split at h
  · cases h
  · split at h
    · cases h
    · split at h
      · cases h
      · next tag value hcut =>
        cases h
        intro offer hoffer
        rw [protocols_set, mem_foldl] at hoffer
        rcases hoffer with hkept | hnew
        · exact hr offer hkept
        · split at hnew
          · exact oneLine_of_mem_offersOf (oneLine_of_cut? hline hcut) hnew
          · exact absurd hnew List.not_mem_nil

end Request

end WsRelay.Handshake
