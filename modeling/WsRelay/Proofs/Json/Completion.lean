import WsRelay.Proofs.Json.Numbers
/-! # What completes a value

Wherever the scanner stands, the grammar says what may still follow: `Completes e bs z` if the bytes
`z` are the rest of a value of which the scanner has read a part, with `e` expected next and the
brackets `bs` open.  Behind a value that is inside brackets, that is whatever closes them
(`Outward`).

Every byte that the scanner accepts is taken off the front of what completes the value
(`completes_of_leads`).  So what completes a value from where it begins is a value, with blanks
before it (`completes_value_nil`), and there always is something that does, unless a number is
broken (`exists_completes`). -/

namespace WsRelay.Json

variable {e e' : Expect} {bs bs' : List Bracket} {bracket : Bracket} {b : UInt8} {x y z w v : Bytes}
  {n : Numeral} {d : Nat}

/-- How deep a value inside these brackets may be nested. -/
def room (bs : List Bracket) : Nat :=
  depthLimit - bs.length

/-- An opening bracket takes one level. -/
theorem room_eq_succ (h : bs.length < depthLimit) (bracket : Bracket) :
    room bs = room (bracket :: bs) + 1 := by
  simp only [room, List.length_cons]
  omega

/-! ### Blanks around entries -/

theorem blanks_nil : Blanks [] := List.forall_mem_nil _

theorem blanks_cons (hb : isBlank b = true) (hw : Blanks w) : Blanks (b :: w) :=
  List.forall_mem_cons.mpr ⟨hb, hw⟩

theorem blanks_concat (hb : isBlank b = true) (hw : Blanks w) : Blanks (w ++ [b]) :=
  List.forall_mem_append.mpr ⟨hw, List.forall_mem_singleton.mpr hb⟩

/-- A blank may stand before an entry. -/
theorem entry_cons_blank (hb : isBlank b = true) (h : Derives (.entry bracket) d x) :
    Derives (.entry bracket) d (b :: x) := by
  cases h with
  | element hw hv hw' => exact .element (blanks_cons hb hw) hv hw'
  | member hw hk hw₁ hw₂ hv hw' => exact .member (blanks_cons hb hw) hk hw₁ hw₂ hv hw'

/-- A blank may stand behind an entry. -/
theorem entry_concat_blank (hb : isBlank b = true) (h : Derives (.entry bracket) d x) :
    Derives (.entry bracket) d (x ++ [b]) := by
  cases h with
  | element hw hv hw' =>
      have hmore := Derives.element hw hv (blanks_concat hb hw')
      simpa only [List.append_assoc, List.cons_append] using hmore
  | member hw hk hw₁ hw₂ hv hw' =>
      have hmore := Derives.member hw hk hw₁ hw₂ hv (blanks_concat hb hw')
      simpa only [List.append_assoc, List.cons_append] using hmore

theorem entries_concat_blank (hb : isBlank b = true) (h : Derives (.entries bracket) d x) :
    Derives (.entries bracket) d (x ++ [b]) := by
  cases h with
  | one h => exact .one (entry_concat_blank hb h)
  | more hs h =>
      have hmore := Derives.more hs (entry_concat_blank hb h)
      simpa only [List.append_assoc, List.cons_append] using hmore

/-! ### Behind a value -/

/-- What closes these brackets, behind a value inside them. -/
inductive Outward : List Bracket → Bytes → Prop
  | done : Outward [] []
  | blank {bracket : Bracket} {bs : List Bracket} {b : UInt8} {z : Bytes} (hb : isBlank b = true)
      (h : Outward (bracket :: bs) z) : Outward (bracket :: bs) (b :: z)
  | close {bracket : Bracket} {bs : List Bracket} {z : Bytes} (h : Outward bs z) :
      Outward (bracket :: bs) (bracket.close :: z)
  | comma {bracket : Bracket} {bs : List Bracket} {x z : Bytes}
      (hx : Derives (.entry bracket) (room (bracket :: bs)) x) (h : Outward (bracket :: bs) z) :
      Outward (bracket :: bs) (44 :: (x ++ z))

theorem outward_nil (h : Outward [] z) : z = [] := by
  cases h with
  | done => rfl

theorem exists_outward (bs : List Bracket) : ∃ z, Outward bs z := by
  induction bs with
  | nil => exact ⟨[], .done⟩
  | cons bracket bs ih =>
      obtain ⟨z, hz⟩ := ih
      exact ⟨_, .close hz⟩

/-- The entries so far and what closes their bracket are all its entries, the closing byte, and what
closes the brackets around it. -/
theorem Outward.entries (h : Outward (bracket :: bs) z)
    (hxs : Derives (.entries bracket) (room (bracket :: bs)) x) :
    ∃ xs z', x ++ z = xs ++ bracket.close :: z' ∧
      Derives (.entries bracket) (room (bracket :: bs)) xs ∧ Outward bs z' := by
  generalize hstack : bracket :: bs = stack at h
  induction h generalizing x with
  | done => cases hstack
  | blank hb _ ih =>
      obtain ⟨xs, z', heq, hxs', hz'⟩ := ih (entries_concat_blank hb hxs) hstack
      refine ⟨xs, z', ?_, hxs', hz'⟩
      rw [← heq, List.append_assoc]
      rfl
  | @close _ _ z hz _ =>
      cases hstack
      exact ⟨x, z, rfl, hxs, hz⟩
  | comma hx _ ih =>
      have hmore := hxs
      cases hstack
      obtain ⟨xs, z', heq, hxs', hz'⟩ := ih (.more hxs hx) rfl
      refine ⟨xs, z', ?_, hxs', hz'⟩
      rw [← heq]
      simp only [List.append_assoc, List.cons_append]

/-! ### From where the scanner stands -/

/-- The bytes are the rest of the value that is being read. -/
inductive Completes : Expect → List Bracket → Bytes → Prop
  | value {bs : List Bracket} {w v z : Bytes} (hw : Blanks w) (hv : Derives .value (room bs) v)
      (h : Outward bs z) : Completes .value bs (w ++ (v ++ z))
  /-- Nothing stands between the brackets. -/
  | empty {bracket : Bracket} {bs : List Bracket} {w z : Bytes} (hw : Blanks w)
      (h : Outward bs.tail z) : Completes (.content bracket) bs (w ++ bracket.close :: z)
  | content {bracket : Bracket} {bs : List Bracket} {x z : Bytes}
      (hx : Derives (.entry bracket) (room bs) x) (h : Outward bs z) :
      Completes (.content bracket) bs (x ++ z)
  | key {bs : List Bracket} {x z : Bytes} (hx : Derives (.entry .object) (room bs) x)
      (h : Outward bs z) : Completes .key bs (x ++ z)
  | colon {bs : List Bracket} {w z : Bytes} (hw : Blanks w) (h : Completes .value bs z) :
      Completes .colon bs (w ++ 58 :: z)
  | separator {bs : List Bracket} {z : Bytes} (h : Outward bs z) : Completes .separator bs z
  /-- A key is followed by its colon. -/
  | keyText {bs : List Bracket} {cs z : Bytes} (hcs : Characters cs) (h : Completes .colon bs z) :
      Completes (.text true) bs (cs ++ 34 :: z)
  | text {bs : List Bracket} {cs z : Bytes} (hcs : Characters cs) (h : Outward bs z) :
      Completes (.text false) bs (cs ++ 34 :: z)
  | escape {bs : List Bracket} {isKey : Bool} {b : UInt8} {z : Bytes}
      (hb : b ∈ [34, 92, 47, 98, 102, 110, 114, 116]) (h : Completes (.text isKey) bs z) :
      Completes (.escape isKey) bs (b :: z)
  | unicode {bs : List Bracket} {isKey : Bool} {z : Bytes} (h : Completes (.hex 3 isKey) bs z) :
      Completes (.escape isKey) bs (117 :: z)
  | hex {bs : List Bracket} {left : Nat} {isKey : Bool} {b : UInt8} {z : Bytes}
      (hb : isHex b = true) (h : Completes (.hex left isKey) bs z) :
      Completes (.hex (left + 1) isKey) bs (b :: z)
  | lastHex {bs : List Bracket} {isKey : Bool} {b : UInt8} {z : Bytes}
      (hb : isHex b = true) (h : Completes (.text isKey) bs z) :
      Completes (.hex 0 isKey) bs (b :: z)
  | word {bs : List Bracket} {rest z : Bytes} (h : Outward bs z) :
      Completes (.word rest) bs (rest ++ z)
  | number {bs : List Bracket} {n : Numeral} {t z : Bytes} (ht : Finishes n t) (h : Outward bs z) :
      Completes (.number n) bs (t ++ z)

/-- The bytes complete the value after a move. -/
def Move.Leads : Move → Bytes → Prop
  | .next e bs, z => Completes e bs z
  | .ends, z => z = []
  | .ended, _ | .fails, _ => False

theorem leads_afterValue (h : (afterValue bs).Leads z) : Outward bs z := by
  cases bs with
  | nil =>
      obtain rfl : z = [] := h
      exact .done
  | cons bracket bs =>
      have h : Completes .separator (bracket :: bs) z := h
      cases h with
      | separator h => exact h

/-- A byte where a comma or a closing bracket is expected. -/
theorem leads_stepSeparator (h : (stepSeparator bs b).Leads z) : Outward bs (b :: z) := by
  cases bs with
  | nil => exact h.elim
  | cons bracket bs =>
      simp only [stepSeparator] at h
      split at h
      · next hb =>
        cases h with
        | separator h => exact .blank hb h
      · split at h
        · next hb =>
          rw [hb]
          exact .close (leads_afterValue h)
        · split at h
          · next hb =>
            subst hb
            cases bracket with
            | object =>
                cases h with
                | key hx hz => exact .comma hx hz
            | array =>
                cases h with
                | @value _ w v z hw hv hz =>
                    have hcomma := Outward.comma (.element hw hv blanks_nil) hz
                    simpa only [List.append_assoc, List.nil_append] using hcomma
          · exact h.elim

/-- What completes the inside of a string, after an escape or another character. -/
theorem Completes.text_characters {isKey : Bool} {c : Bytes}
    (hc : ∀ cs, Characters cs → Characters (c ++ cs)) (h : Completes (.text isKey) bs z) :
    Completes (.text isKey) bs (c ++ z) := by
  cases h with
  | keyText hcs h =>
      rw [← List.append_assoc]
      exact .keyText (hc _ hcs) h
  | text hcs h =>
      rw [← List.append_assoc]
      exact .text (hc _ hcs) h

theorem Completes.escaped {isKey : Bool} (h : Completes (.escape isKey) bs z) :
    Completes (.text isKey) bs (92 :: z) := by
  cases h with
  | @escape _ _ b z hb h => exact h.text_characters (c := [92, b]) fun _ hcs => .escape hb hcs
  | unicode h =>
      cases h with
      | hex h₁ h =>
          cases h with
          | hex h₂ h =>
              cases h with
              | hex h₃ h =>
                  cases h with
                  | lastHex h₄ h =>
                      refine h.text_characters (c := [92, 117, _, _, _, _]) fun _ hcs =>
                        .unicode ?_ hcs
                      simp only [List.forall_mem_cons]
                      exact ⟨h₁, h₂, h₃, h₄, List.forall_mem_nil _⟩

/-! ### From one byte to the next -/

/-- What the first byte of a value leads to. -/
inductive Starts (bs : List Bracket) : UInt8 → Expect → List Bracket → Prop
  | opening (bracket : Bracket) (h : bs.length < depthLimit) :
      Starts bs bracket.opening (.content bracket) (bracket :: bs)
  | text : Starts bs 34 (.text false) bs
  | number {b : UInt8} {n : Numeral} (h : Opens b n) : Starts bs b (.number n) bs
  | word {b : UInt8} {rest : Bytes} (h : b :: rest ∈ literals) : Starts bs b (.word rest) bs

/-- The first byte of a value begins a value, and does not end one. -/
theorem startValue_cases (bs : List Bracket) (b : UInt8) :
    startValue bs b = .fails ∨ ∃ e bs', startValue bs b = .next e bs' ∧ Starts bs b e bs' := by
  unfold startValue
  split
  · next hb =>
    subst hb
    split
    · next hroom => exact .inr ⟨_, _, rfl, .opening .object hroom⟩
    · exact .inl rfl
  · split
    · next hb =>
      subst hb
      split
      · next hroom => exact .inr ⟨_, _, rfl, .opening .array hroom⟩
      · exact .inl rfl
    · split
      · next hb =>
        subst hb
        exact .inr ⟨_, _, rfl, .text⟩
      · split
        · next hb =>
          subst hb
          exact .inr ⟨_, _, rfl, .number .minus⟩
        · split
          · next hb =>
            subst hb
            exact .inr ⟨_, _, rfl, .number .zero⟩
          · next hzero =>
            split
            · next hb => exact .inr ⟨_, _, rfl, .number (.digit hb hzero)⟩
            · split
              · next hb =>
                subst hb
                exact .inr ⟨_, _, rfl, .word (by decide)⟩
              · split
                · next hb =>
                  subst hb
                  exact .inr ⟨_, _, rfl, .word (by decide)⟩
                · split
                  · next hb =>
                    subst hb
                    exact .inr ⟨_, _, rfl, .word (by decide)⟩
                  · exact .inl rfl

/-- A byte that begins a value, and what completes it. -/
theorem Starts.value (h : Starts bs b e bs') (hz : Completes e bs' z) :
    ∃ v z', b :: z = v ++ z' ∧ Derives .value (room bs) v ∧ Outward bs z' := by
  cases h with
  | opening bracket hroom =>
      rw [room_eq_succ hroom bracket]
      cases hz with
      | @empty _ _ w z' hw hz =>
          refine ⟨bracket.opening :: (w ++ [bracket.close]), z', ?_, .closed (.empty hw), hz⟩
          simp only [List.append_assoc, List.cons_append, List.nil_append]
      | content hx hz =>
          obtain ⟨xs, z', heq, hxs, hz'⟩ := hz.entries (.one hx)
          refine ⟨bracket.opening :: (xs ++ [bracket.close]), z', ?_, .closed (.container hxs), hz'⟩
          rw [heq]
          simp only [List.append_assoc, List.cons_append, List.nil_append]
  | text =>
      cases hz with
      | @text _ cs z' hcs hz =>
          refine ⟨34 :: (cs ++ [34]), z', ?_, .closed (.text (.quoted hcs)), hz⟩
          simp only [List.append_assoc, List.cons_append, List.nil_append]
  | number hopens =>
      cases hz with
      | number ht hz => exact ⟨_, _, rfl, .number (ht.number hopens), hz⟩
  | word hword =>
      cases hz with
      | word hz => exact ⟨_, _, rfl, .closed (.literal hword), hz⟩

/-- The first byte of a value is the front of what completes it. -/
theorem leads_startValue (h : (startValue bs b).Leads z) :
    ∃ v z', b :: z = v ++ z' ∧ Derives .value (room bs) v ∧ Outward bs z' := by
  rcases startValue_cases bs b with hfails | ⟨e, bs', hnext, hstarts⟩
  · rw [hfails] at h
    exact h.elim
  · rw [hnext] at h
    exact hstarts.value h

/-- The key of a member, and what completes the member. -/
theorem Completes.member (h : Completes (.text true) bs z) :
    ∃ x z', 34 :: z = x ++ z' ∧ Derives (.entry .object) (room bs) x ∧ Outward bs z' := by
  cases h with
  | @keyText _ cs _ hcs h =>
      cases h with
      | @colon _ w₁ _ hw₁ h =>
          cases h with
          | @value _ w₂ v z' hw₂ hv hz =>
              have hmember := Derives.member blanks_nil (.quoted hcs) hw₁ hw₂ hv blanks_nil
              refine ⟨_, z', ?_, hmember, hz⟩
              simp only [List.append_assoc, List.cons_append, List.nil_append]

/-- Before a value, blanks are skipped, and its first byte begins it. -/
theorem leads_value (h : (step .value bs b).Leads z) : Completes .value bs (b :: z) := by
  simp only [step] at h
  split at h
  · next hb =>
    cases h with
    | value hw hv hz => exact .value (blanks_cons hb hw) hv hz
  · obtain ⟨v, z', heq, hv, hz⟩ := leads_startValue h
    rw [heq]
    exact .value blanks_nil hv hz

/-- Behind an opening bracket comes the closing one, or the first entry. -/
theorem leads_content {bracket : Bracket} (h : (step (.content bracket) bs b).Leads z) :
    Completes (.content bracket) bs (b :: z) := by
  simp only [step] at h
  split at h
  · next hb =>
    cases h with
    | empty hw hz => exact .empty (blanks_cons hb hw) hz
    | content hx hz => exact .content (entry_cons_blank hb hx) hz
  · split at h
    · next hb =>
      rw [hb]
      exact .empty blanks_nil (leads_afterValue h)
    · cases bracket with
      | object =>
          dsimp only at h
          split at h
          · next hb =>
            subst hb
            obtain ⟨x, z', heq, hx, hz⟩ := Completes.member h
            rw [heq]
            exact .content hx hz
          · exact h.elim
      | array =>
          obtain ⟨v, z', heq, hv, hz⟩ := leads_startValue h
          have hx := Derives.element blanks_nil hv blanks_nil
          rw [heq]
          have hcontent := Completes.content hx hz
          simpa only [List.append_nil, List.nil_append] using hcontent

/-- Behind the comma of an object comes the next member. -/
theorem leads_key (h : (step .key bs b).Leads z) : Completes .key bs (b :: z) := by
  simp only [step] at h
  split at h
  · next hb =>
    cases h with
    | key hx hz => exact .key (entry_cons_blank hb hx) hz
  · split at h
    · next hb =>
      subst hb
      obtain ⟨x, z', heq, hx, hz⟩ := Completes.member h
      rw [heq]
      exact .key hx hz
    · exact h.elim

/-- Behind a key comes its colon. -/
theorem leads_colon (h : (step .colon bs b).Leads z) : Completes .colon bs (b :: z) := by
  simp only [step] at h
  split at h
  · next hb =>
    cases h with
    | colon hw h => exact .colon (blanks_cons hb hw) h
  · split at h
    · next hb =>
      subst hb
      exact .colon blanks_nil h
    · exact h.elim

/-- A string ends in its quote, and any other byte is a character or escapes one. -/
theorem leads_text {isKey : Bool} (h : (step (.text isKey) bs b).Leads z) :
    Completes (.text isKey) bs (b :: z) := by
  simp only [step] at h
  split at h
  · next hb =>
    subst hb
    cases isKey with
    | true => exact .keyText .nil h
    | false => exact .text .nil (leads_afterValue h)
  · next hquote =>
    split at h
    · next hb =>
      subst hb
      exact Completes.escaped h
    · next hescape =>
      split at h
      · exact h.elim
      · next hb =>
        exact Completes.text_characters (c := [b])
          (fun _ hcs => .plain (UInt8.not_lt.mp hb) hquote hescape hcs) h

/-- A word is read to its last byte. -/
theorem leads_word {rest : Bytes} (h : (step (.word rest) bs b).Leads z) :
    Completes (.word rest) bs (b :: z) := by
  cases rest with
  | nil => exact h.elim
  | cons c rest =>
      simp only [step] at h
      split at h
      · next hb =>
        subst hb
        split at h
        · next hempty =>
          obtain rfl := List.isEmpty_iff.mp hempty
          exact @Completes.word _ [b] _ (leads_afterValue h)
        · cases h with
          | word hz => exact @Completes.word _ (b :: rest) _ hz
      · exact h.elim

/-- A number goes on, or ends before what follows it. -/
theorem leads_number {n : Numeral} (h : (step (.number n) bs b).Leads z) :
    Completes (.number n) bs (b :: z) := by
  simp only [step] at h
  split at h
  · cases h with
    | number ht hz => exact .number ht.push hz
  · split at h
    · next hb =>
      split at h
      · exact h.elim
      · have hwhole := (Bool.and_eq_true_iff.mp hb).1
        exact Completes.number (finishes_of_isWhole hwhole) (leads_stepSeparator h)
    · exact h.elim

/-- **Every byte that is accepted is taken off the front of what completes the value.** -/
theorem completes_of_leads (h : (step e bs b).Leads z) : Completes e bs (b :: z) := by
  cases e with
  | value => exact leads_value h
  | content => exact leads_content h
  | key => exact leads_key h
  | colon => exact leads_colon h
  | separator => exact .separator (leads_stepSeparator h)
  | text => exact leads_text h
  | escape isKey =>
      simp only [step] at h
      split at h
      · next hb =>
        subst hb
        exact .unicode h
      · split at h
        · next hb => exact .escape (List.contains_iff_mem.mp hb) h
        · exact h.elim
  | hex left isKey =>
      simp only [step] at h
      split at h
      · next hb =>
        cases left with
        | zero => exact .lastHex hb h
        | succ left => exact .hex hb h
      · exact h.elim
  | word => exact leads_word h
  | number => exact leads_number h

/-- **What completes a value from where it begins is a value**, with blanks before it. -/
theorem completes_value_nil :
    Completes .value [] z ↔ ∃ w v, z = w ++ v ∧ Blanks w ∧ Derives .value depthLimit v := by
  constructor
  · intro h
    cases h with
    | @value _ w v z hw hv hz =>
        obtain rfl := outward_nil hz
        exact ⟨w, v, by rw [List.append_nil], hw, hv⟩
  · rintro ⟨w, v, rfl, hw, hv⟩
    have h : Completes .value [] (w ++ (v ++ [])) := .value hw hv .done
    rwa [List.append_nil] at h

/-- The scanner stands where a value can be completed, unless a number is broken. -/
theorem exists_completes (bs : List Bracket) (h : ∀ d, e ≠ .number (.broken d)) :
    ∃ z, Completes e bs z := by
  have hnumber (d : Nat) : Derives .value d [48] :=
    .number (.positive .zero .absent .absent)
  have hkey : Text [34, 34] := .quoted .nil
  have hentry (bracket : Bracket) (d : Nat) : ∃ x, Derives (.entry bracket) d x := by
    cases bracket with
    | object => exact ⟨_, .member blanks_nil hkey blanks_nil blanks_nil (hnumber d) blanks_nil⟩
    | array => exact ⟨_, .element blanks_nil (hnumber d) blanks_nil⟩
  obtain ⟨o, ho⟩ := exists_outward bs
  have hcolon : ∃ z, Completes .colon bs z :=
    ⟨_, .colon blanks_nil (.value blanks_nil (hnumber _) ho)⟩
  have htext (isKey : Bool) : ∃ z, Completes (.text isKey) bs z := by
    cases isKey with
    | true =>
        obtain ⟨z, hz⟩ := hcolon
        exact ⟨_, .keyText .nil hz⟩
    | false => exact ⟨_, .text .nil ho⟩
  cases e with
  | value => exact ⟨_, .value blanks_nil (hnumber _) ho⟩
  | content bracket =>
      obtain ⟨x, hx⟩ := hentry bracket (room bs)
      exact ⟨_, .content hx ho⟩
  | key =>
      obtain ⟨x, hx⟩ := hentry .object (room bs)
      exact ⟨_, .key hx ho⟩
  | colon => exact hcolon
  | separator => exact ⟨_, .separator ho⟩
  | text isKey => exact htext isKey
  | escape isKey =>
      obtain ⟨z, hz⟩ := htext isKey
      exact ⟨_, .escape List.mem_cons_self hz⟩
  | hex left isKey =>
      induction left with
      | zero =>
          obtain ⟨z, hz⟩ := htext isKey
          exact ⟨_, .lastHex (b := 48) rfl hz⟩
      | succ left ih =>
          obtain ⟨z, hz⟩ := ih nofun
          exact ⟨_, .hex (b := 48) rfl hz⟩
  | word rest => exact ⟨_, .word ho⟩
  | number n =>
      obtain ⟨t, ht⟩ := exists_finishes (n := n) fun d hd => h d (by rw [hd])
      exact ⟨_, .number ht ho⟩

end WsRelay.Json
