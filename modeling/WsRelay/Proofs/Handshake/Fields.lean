import Mathlib.Data.List.Basic
import WsRelay.Handshake
import WsRelay.Proofs.Text.Decoding
/-! # What a request says

A request line asks for a path (`AsksFor`), which `path?` reads off it (`path?_of_asksFor`).  A
header line is refused by its bytes alone (`refusal?`), or holds a field (`field?`); `feed` does
with it what `set` does with the field (`feed_refused`, `feed_field`).

What header lines leave in a request is said without going through them one by one
(`Request.essence_collect`): the last version and the last key count, and for each half of the
upgrade it is enough if one line says so.  Hence `grant` decides as the lines as a whole say
(`Request.grant_collect`). -/

namespace WsRelay.Handshake

/-! ### The request line -/

/-- A line that asks for a path: it has no blank in it, one blank behind it, and `HTTP/` comes
next. -/
def AsksFor (path line : Bytes) : Prop :=
  (∀ b ∈ path, Bytes.isBlank b = false) ∧ ∃ blank version, Bytes.isBlank blank = true ∧
    line = Utf8.encode "GET " ++ path ++ blank :: (Utf8.encode "HTTP/" ++ version)

/-- The path of a line that begins with `GET` and has a blank in what follows. -/
theorem path?_of_blank {path rest : Bytes} {blank : UInt8}
    (hpath : ∀ b ∈ path, Bytes.isBlank b = false) (hblank : Bytes.isBlank blank = true) :
    path? (Utf8.encode "GET " ++ (path ++ blank :: rest)) =
      if (Utf8.encode "HTTP/").isPrefixOf rest then .ok (Utf8.decodeLossy path)
      else .error (.requestLine "missing HTTP protocol token") := by
  have htake : (path ++ blank :: rest).takeWhile (fun b => !Bytes.isBlank b) = path := by
    rw [List.takeWhile_append_of_pos fun b hb => by rw [hpath b hb]; rfl,
      List.takeWhile_cons_of_neg (by rw [hblank]; exact Bool.false_ne_true), List.append_nil]
  have hdrop : (path ++ blank :: rest).drop (path.length + 1) = rest := by
    rw [← List.drop_drop, List.drop_left, List.drop_one, List.tail_cons]
  rw [path?, List.isPrefixOf?_eq_some_iff_append_eq.mpr rfl]
  dsimp only
  rw [htake, hdrop]

theorem path?_of_asksFor {path line : Bytes} (h : AsksFor path line) :
    path? line = .ok (Utf8.decodeLossy path) := by
  obtain ⟨hpath, blank, version, hblank, rfl⟩ := h
  rw [List.append_assoc, path?_of_blank hpath hblank,
    if_pos (List.isPrefixOf_iff_prefix.mpr (List.prefix_append _ _))]

/-- Why a header line is refused: it continues the line before, or has no colon. -/
def refusal? : Bytes → Option String
  | [] => none
  | b :: line =>
    if Bytes.isBlank b then some "500 Header folding"
    else if 58 ∈ b :: line then none
    else some "500 Header format"

/-- The field a header line holds: what stands before the first colon, and what follows it without
the blanks in front. -/
def field? (line : Bytes) : Option (String × String) :=
  (Text.cut? ':' (Utf8.decodeLossy line)).map fun (tag, value) => (tag, Text.trimStart value)

/-- A line without a colon holds no field. -/
theorem field?_eq_none_iff {line : Bytes} : field? line = none ↔ 58 ∉ line := by
  rw [field?, Option.map_eq_none_iff, Text.cut?_eq_none_iff,
    Utf8.mem_decodeLossy (by decide) (by decide)]
  rfl

/-- What stands before the first colon of a line is read apart from what follows it. -/
theorem field?_append {x : Bytes} (h : 58 ∉ x) (y : Bytes) :
    field? (x ++ 58 :: y) =
      some (Utf8.decodeLossy x, Text.trimStart (Utf8.decodeLossy y)) := by
  have hread : Utf8.decodeLossy (x ++ 58 :: y) =
      Utf8.decodeLossy x ++ (String.singleton ':' ++ Utf8.decodeLossy y) :=
    Utf8.decodeLossy_append (c := ':') (by decide) x y
  have hcolon : ':' ∉ (Utf8.decodeLossy x).toList :=
    mt (Utf8.mem_decodeLossy (by decide) (by decide) x).mp h
  rw [field?, hread, Text.cut?_append hcolon, Option.map_some]

namespace Request

variable {line : Bytes} {status : String}

theorem feed_refused (h : refusal? line = some status) (r : Request) :
    ∃ e, r.feed line = .error e ∧ e.termination = .http status := by
  cases line with
  | nil => cases h
  | cons b line =>
      rw [refusal?] at h
      rw [feed]
      split at h
      · next hblank =>
        cases h
        exact ⟨_, if_pos hblank, rfl⟩
      · next hblank =>
        split at h
        · cases h
        · next hcolon =>
          cases h
          have hcut := Option.map_eq_none_iff.mp (field?_eq_none_iff.mpr hcolon)
          rw [if_neg hblank, hcut]
          exact ⟨_, rfl, rfl⟩

theorem feed_field (h : refusal? line = none) (hne : line ≠ []) (r : Request) :
    ∃ tag value, field? line = some (tag, value) ∧
      r.feed line = .ok (.header (r.set tag value)) := by
  cases line with
  | nil => exact absurd rfl hne
  | cons b line =>
      rw [refusal?] at h
      split at h
      · cases h
      · next hblank =>
        split at h
        · next hcolon =>
          cases hcut : Text.cut? ':' (Utf8.decodeLossy (b :: line)) with
          | none =>
              have hnone : field? (b :: line) = none := by rw [field?, hcut, Option.map_none]
              exact absurd hcolon (field?_eq_none_iff.mp hnone)
          | some cut =>
              obtain ⟨tag, value⟩ := cut
              refine ⟨tag, Text.trimStart value, by rw [field?, hcut, Option.map_some], ?_⟩
              rw [feed, if_neg hblank, hcut]
        · cases h

/-! ### What fields leave in a request -/

/-- The request after fields, one after the other. -/
def collect (r : Request) (fields : List (String × String)) : Request :=
  fields.foldl (fun r (tag, value) => r.set tag value) r

/-- The value tells the client's wish to change to WebSocket. -/
def asksForWebSocket (value : String) : Bool :=
  Text.sameIgnoringCase (Text.trimEnd value) "websocket"

/-- The value tells the client's wish to change the protocol at all. -/
def asksForUpgrade (value : String) : Bool :=
  Text.contains (Text.lower value) "upgrade"

/-- All of a request that is not a list: the path, and what decides the upgrade. -/
def essence (r : Request) : String × Nat × Option String × Bool × Bool :=
  (r.path, r.version, r.key, r.upgrade, r.connection)

theorem essence_addOffers (r : Request) (value : String) :
    (r.addOffers value).essence = r.essence := by
  unfold addOffers
  generalize ((Text.pieces ',' value).map Text.trim).filter (· ≠ "") = offers
  induction offers generalizing r with
  | nil => rfl
  | cons offer offers ih =>
      rw [List.foldl_cons, ih, addOffer]
      split <;> rfl

theorem essence_keep (r : Request) (tag value : String) :
    (r.keep tag value).essence = r.essence := by
  unfold keep
  split <;> rfl

/-- What a field does to a request. -/
inductive Sets (r : Request) (tag value : String) : Request → Prop
  | version (h : tag = "Sec-WebSocket-Version") :
    Sets r tag value { r with version := Text.decimalPrefix versionTop value }
  | key (h : tag = "Sec-WebSocket-Key") :
    Sets r tag value { r with key := some (Text.trimEnd value) }
  | upgrade (h : tag = "Upgrade") (hasks : asksForWebSocket value = true) :
    Sets r tag value { r with upgrade := true }
  | connection (h : tag = "Connection") (hasks : asksForUpgrade value = true) :
    Sets r tag value { r with connection := true }
  | offers (h : tag = "Sec-WebSocket-Protocol") : Sets r tag value (r.addOffers value)
  /-- A header of no meaning, be it that its tag could have one. -/
  | plain (hversion : tag ≠ "Sec-WebSocket-Version") (hkey : tag ≠ "Sec-WebSocket-Key")
      (hupgrade : (tag == "Upgrade" && asksForWebSocket value) = false)
      (hconnection : (tag == "Connection" && asksForUpgrade value) = false)
      (hprotocol : tag ≠ "Sec-WebSocket-Protocol") :
    Sets r tag value (r.keep tag value)

theorem sets (r : Request) (tag value : String) : Sets r tag value (r.set tag value) := by
  unfold set
  split
  · exact .version ‹_›
  · next hversion =>
    split
    · exact .key ‹_›
    · next hkey =>
      split
      · next hupgrade => exact .upgrade hupgrade.1 hupgrade.2
      · next hupgrade =>
        split
        · next hconnection => exact .connection hconnection.1 hconnection.2
        · next hconnection =>
          split
          · exact .offers ‹_›
          · next hprotocol =>
            refine .plain hversion hkey ?_ ?_ hprotocol
            · exact Bool.eq_false_iff.mpr fun h =>
                hupgrade ((Bool.and_eq_true_iff.mp h).imp_left eq_of_beq)
            · exact Bool.eq_false_iff.mpr fun h =>
                hconnection ((Bool.and_eq_true_iff.mp h).imp_left eq_of_beq)

/-- What a field changes of it. -/
theorem essence_set (r : Request) (tag value : String) :
    (r.set tag value).essence =
      (r.path,
        if tag = "Sec-WebSocket-Version" then Text.decimalPrefix versionTop value else r.version,
        if tag = "Sec-WebSocket-Key" then some (Text.trimEnd value) else r.key,
        r.upgrade || (tag == "Upgrade" && asksForWebSocket value),
        r.connection || (tag == "Connection" && asksForUpgrade value)) := by
  have h := sets r tag value
  generalize r.set tag value = s at h ⊢
  cases h with
  | version h | key h => simp [h, essence]
  | upgrade h hasks | connection h hasks => simp [h, hasks, essence]
  | offers h =>
      rw [essence_addOffers]
      simp [h, essence]
  | plain hversion hkey hupgrade hconnection hprotocol =>
      rw [essence_keep, if_neg hversion, if_neg hkey, hupgrade, hconnection, Bool.or_false,
        Bool.or_false]
      rfl

end Request

/-- The values of the fields with a tag, in order. -/
def values (tag : String) (fields : List (String × String)) : List String :=
  fields.filterMap fun (t, value) => if t = tag then some value else none

theorem values_cons (tag t value : String) (fields : List (String × String)) :
    values tag ((t, value) :: fields) =
      if t = tag then value :: values tag fields else values tag fields := by
  rw [values, List.filterMap_cons]
  by_cases h : t = tag
  · simp only [if_pos h]
    rfl
  · simp only [if_neg h]
    rfl

/-- The last value with a tag is one of a later field, if there is one. -/
theorem getLast?_values_cons (tag t value : String) (fields : List (String × String)) :
    (values tag ((t, value) :: fields)).getLast? =
      (values tag fields).getLast?.or (if t = tag then some value else none) := by
  rw [values_cons]
  split
  · rw [List.getLast?_cons]
    cases (values tag fields).getLast? <;> rfl
  · rw [Option.or_none]

theorem any_values_cons (p : String → Bool) (tag t value : String)
    (fields : List (String × String)) :
    (values tag ((t, value) :: fields)).any p =
      ((t == tag && p value) || (values tag fields).any p) := by
  rw [values_cons]
  by_cases h : t = tag
  · rw [if_pos h, List.any_cons, beq_iff_eq.mpr h, Bool.true_and]
  · rw [if_neg h, beq_eq_false_iff_ne.mpr h, Bool.false_and, Bool.false_or]

namespace Request

/-- **What fields leave in a request**: the last version and the last key count, and for each half
of the upgrade it is enough if one field says so. -/
theorem essence_collect (r : Request) (fields : List (String × String)) :
    (r.collect fields).essence =
      (r.path,
        ((values "Sec-WebSocket-Version" fields).getLast?.map
          (Text.decimalPrefix versionTop)).getD r.version,
        ((values "Sec-WebSocket-Key" fields).getLast?.map Text.trimEnd).or r.key,
        r.upgrade || (values "Upgrade" fields).any asksForWebSocket,
        r.connection || (values "Connection" fields).any asksForUpgrade) := by
  induction fields generalizing r with
  | nil => simp [collect, values, essence]
  | cons field fields ih =>
      obtain ⟨tag, value⟩ := field
      have hset := essence_set r tag value
      simp only [essence, Prod.mk.injEq] at hset
      obtain ⟨hpath, hversion, hkey, hupgrade, hconnection⟩ := hset
      rw [collect, List.foldl_cons]
      show ((r.set tag value).collect fields).essence = _
      rw [ih, hpath, hversion, hkey, hupgrade, hconnection]
      simp only [getLast?_values_cons, any_values_cons, Bool.or_assoc, Prod.mk.injEq, true_and,
        and_true]
      -- a later value counts if there is one, and else the value of this field
      constructor
      · cases (values "Sec-WebSocket-Version" fields).getLast? <;> split <;> rfl
      · cases (values "Sec-WebSocket-Key" fields).getLast? <;> split <;> rfl

end Request

/-! ### What decides the upgrade -/

/-- The last version the fields name is the one that is spoken. -/
def SpeaksVersion (fields : List (String × String)) : Prop :=
  ∃ value, (values "Sec-WebSocket-Version" fields).getLast? = some value ∧
    Text.decimalValue value = version

/-- The fields name a key, and ask for the upgrade. -/
def WantsUpgrade (fields : List (String × String)) : Prop :=
  values "Sec-WebSocket-Key" fields ≠ [] ∧
    (∃ value ∈ values "Upgrade" fields, Request.asksForWebSocket value = true) ∧
    ∃ value ∈ values "Connection" fields, Request.asksForUpgrade value = true

namespace Request

variable (path : String) (fields : List (String × String))

theorem version_collect :
    (collect { path } fields).version = Handshake.version ↔ SpeaksVersion fields := by
  have h := congrArg (·.2.1) (essence_collect { path } fields)
  dsimp only [essence] at h
  rw [h, SpeaksVersion]
  cases (values "Sec-WebSocket-Version" fields).getLast? with
  | none => exact iff_of_false nofun nofun
  | some value =>
      have hread := Text.decimalPrefix_eq versionTop value
      have htop : versionTop = 4294967295 := rfl
      have hversion : Handshake.version = 13 := rfl
      rw [Option.map_some, Option.getD_some, hread]
      simp only [Option.some.injEq, exists_eq_left']
      omega

theorem wantsUpgrade_iff :
    WantsUpgrade fields ↔ (collect { path } fields).key.isSome ∧
      ((collect { path } fields).upgrade && (collect { path } fields).connection) = true := by
  have h := essence_collect { path } fields
  simp only [essence, Prod.mk.injEq] at h
  obtain ⟨-, -, hkey, hupgrade, hconnection⟩ := h
  have hsome : (values "Sec-WebSocket-Key" fields).getLast?.isSome ↔
      values "Sec-WebSocket-Key" fields ≠ [] := List.getLast?_isSome
  rw [WantsUpgrade, hkey, hupgrade, hconnection, Option.or_none, Option.isSome_map, hsome,
    Bool.false_or, Bool.false_or, Bool.and_eq_true, List.any_eq_true, List.any_eq_true]

/-- **What becomes of a request for an upgrade** is decided by the fields as a whole. -/
theorem grant_collect :
    (SpeaksVersion fields → WantsUpgrade fields →
        ∃ key, (collect { path } fields).grant = .ok key) ∧
      (SpeaksVersion fields → ¬ WantsUpgrade fields →
        (collect { path } fields).grant = .error (.handshake 400 "Bad Request")) ∧
      (¬ SpeaksVersion fields →
        (collect { path } fields).grant =
          .error (.handshake 426 "Unsupported protocol version")) := by
  rw [← version_collect path, wantsUpgrade_iff path]
  generalize collect { path } fields = r
  unfold grant
  refine ⟨fun hversion hwants => ?_, fun hversion hwants => ?_, fun hversion => if_pos hversion⟩
  · obtain ⟨key, hkey⟩ := Option.isSome_iff_exists.mp hwants.1
    refine ⟨key, ?_⟩
    rw [if_neg (not_not_intro hversion), hkey]
    exact if_pos hwants.2
  · rw [if_neg (not_not_intro hversion)]
    cases hkey : r.key with
    | none => rfl
    | some key =>
        refine if_neg fun h => hwants ⟨?_, h⟩
        rw [hkey]
        rfl

end Request

end WsRelay.Handshake
