/-! # Trimming and cutting text

Blanks are the characters with the Unicode property `White_Space`, which are trimmed off the ends of
a text (`trim`).  Line ends are among them, so a trimmed line has lost its carriage return too.

A text is cut at a separator (`cut?`, `pieces`), a known start or end is taken off it
(`stripStart?`, `stripEnd?`), and it is compared without regard to ASCII case. -/

namespace WsRelay.Text

/-! ### Blanks -/

/-- The code point ranges of `White_Space`. -/
def blankRanges : List (Nat × Nat) :=
  [(0x0009, 0x000D), (0x0020, 0x0020), (0x0085, 0x0085), (0x00A0, 0x00A0), (0x1680, 0x1680),
   (0x2000, 0x200A), (0x2028, 0x2029), (0x202F, 0x202F), (0x205F, 0x205F), (0x3000, 0x3000)]

/-- The character has the property `White_Space`. -/
def isBlank (c : Char) : Bool :=
  blankRanges.any fun (low, high) => low ≤ c.toNat && c.toNat ≤ high

/-- Without the blanks it starts with. -/
def trimStart (s : String) : String :=
  String.ofList (s.toList.dropWhile isBlank)

/-- Without the blanks it ends with. -/
def trimEnd (s : String) : String :=
  String.ofList (s.toList.reverse.dropWhile isBlank).reverse

/-- Without the blanks at either end. -/
def trim (s : String) : String :=
  trimEnd (trimStart s)

/-! ### Cuts -/

/-- What stands before and after the first `sep`. -/
def cutList? (sep : Char) : List Char → Option (List Char × List Char)
  | [] => none
  | c :: cs =>
    if c = sep then some ([], cs) else (cutList? sep cs).map fun (l, r) => (c :: l, r)

/-- What stands before and after the first `sep`; `none` if there is no `sep`. -/
def cut? (sep : Char) (s : String) : Option (String × String) :=
  (cutList? sep s.toList).map fun (l, r) => (String.ofList l, String.ofList r)

/-- The stretches between occurrences of `sep`: one more than there are occurrences. -/
def piecesList (sep : Char) : List Char → List (List Char)
  | [] => [[]]
  | c :: cs =>
    if c = sep then [] :: piecesList sep cs
    else match piecesList sep cs with
      | [] => [[c]]
      | p :: ps => (c :: p) :: ps

/-- The stretches of a text between occurrences of `sep`. -/
def pieces (sep : Char) (s : String) : List String :=
  (piecesList sep s.toList).map String.ofList

/-- What follows `start`; `none` if the text does not start with it. -/
def stripStart? (start s : String) : Option String :=
  (start.toList.isPrefixOf? s.toList).map String.ofList

/-- What precedes a last character `c`; `none` if the text ends otherwise. -/
def stripEnd? (c : Char) (s : String) : Option String :=
  match s.toList.reverse with
  | [] => none
  | d :: ds => if d = c then some (String.ofList ds.reverse) else none

/-- With the letters A to Z replaced by a to z. -/
def lower (s : String) : String :=
  String.ofList (s.toList.map Char.toLower)

/-- The texts differ at most in the case of ASCII letters. -/
def sameIgnoringCase (s t : String) : Bool :=
  lower s == lower t

/-- The first list occurs inside the second. -/
def occursIn (part : List Char) : List Char → Bool
  | [] => part.isEmpty
  | c :: cs => part.isPrefixOf (c :: cs) || occursIn part cs

/-- The text contains `part`. -/
def contains (s part : String) : Bool :=
  occursIn part.toList s.toList

end WsRelay.Text
