import WsRelay.Framing.Counted
import WsRelay.Framing.Delimited
import WsRelay.Framing.Json
import WsRelay.Text.Quoted
/-! # The table of framings

Framings are found by name.  A table starts out with the seven framings of this library, and more
can be registered; a name that is registered again takes its new rule.  Where no framing or an
unknown one is asked for, `auto` is used. -/

namespace WsRelay

/-- The framings on hand, each name once. -/
structure FramingTable (σ : Type) where
  entries : List (Framing σ) := []

namespace FramingTable

variable {σ : Type}

/-- The table with a framing added, or given a new rule. -/
def insert (table : FramingTable σ) (name : String) (rule : Framing.Rule σ) :
    FramingTable σ :=
  ⟨table.entries.filter (·.name ≠ name) ++ [⟨name, rule⟩]⟩

/-- The framings of this library. -/
def standard : FramingTable σ :=
  ⟨[⟨"binary", Framing.binary⟩, ⟨"auto", Framing.auto⟩, ⟨"separator", Framing.separator⟩,
    ⟨"newline", Framing.newline⟩, ⟨"fixedlength", Framing.fixedLength⟩,
    ⟨"dynamic32", Framing.lengthPrefixed⟩, ⟨"json", Framing.jsonValue⟩]⟩

/-- The framing of a name. -/
def get? (table : FramingTable σ) (name : String) : Option (Framing σ) :=
  table.entries.find? (·.name == name)

/-- The framing used where none or an unknown one is asked for. -/
def fallback (table : FramingTable σ) : Framing σ :=
  (table.get? "auto").getD ⟨"auto", Framing.auto⟩

/-- The framing of a name, or the fallback. -/
def find (table : FramingTable σ) (name : Option String) : Framing σ :=
  (name.bind table.get?).getD table.fallback

/-- How many framings there are. -/
def size (table : FramingTable σ) : Nat :=
  table.entries.length

/-- The names, in order of their characters. -/
def names (table : FramingTable σ) : List String :=
  (table.entries.map (·.name)).mergeSort fun a b => decide (a ≤ b)

end FramingTable

/-- The framing's name, quoted. -/
def Framing.describe {σ : Type} (framing : Framing σ) : String :=
  "Framing(" ++ Text.quoted framing.name ++ ")"

end WsRelay
