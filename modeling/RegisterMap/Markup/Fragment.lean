import RegisterMap.Markup.Character
import RegisterMap.Text.DecimalDigit

/-!
# Text with references

In character data, in values of attributes and in definitions of entities, an ampersand begins a
reference that ends at a semicolon. A reference gives a character by its code point, or it names an
entity.
-/

namespace RegisterMap.Markup

/-- A part of a text with references. -/
inductive Fragment where
  | text (cs : List Char)
  /-- A character given by its code point. -/
  | character (c : Char)
  | entity (name : List Char)
deriving DecidableEq, Repr

/-- The number written in ASCII digits of a base. -/
def codePoint? (base : Nat) (digits : List Char) : Option Nat :=
  if digits.isEmpty || !digits.all (·.toNat < 0x80) then none
  else digits.foldlM (fun n c => (Text.digitIn? base c).map (n * base + ·)) 0

/-- The allowed character with a code point. -/
def allowedCharacter? (n : Nat) : Option Char :=
  let c := Char.ofNat n
  if c.toNat = n ∧ isAllowed c then some c else none

/-- The entities that need no definition. -/
def standardEntity? (name : List Char) : Option Char :=
  match String.ofList name with
  | "lt" => some '<'
  | "gt" => some '>'
  | "amp" => some '&'
  | "quot" => some (Char.ofNat 0x22)
  | "apos" => some (Char.ofNat 0x27)
  | _ => none

namespace Fragment

/-- The reference with the given text between its ampersand and its semicolon. -/
def ofReference? : List Char → Option Fragment
  | '#' :: 'x' :: digits => ((codePoint? 16 digits).bind allowedCharacter?).map .character
  | '#' :: digits => ((codePoint? 10 digits).bind allowedCharacter?).map .character
  | name => if isName name then some (.entity name) else none

/-- A text as a fragment; an empty one is none. -/
def ofText (acc : List Char) : List Fragment :=
  if acc.isEmpty then [] else [.text acc.reverse]

/-- Divide the rest of a text, given the reversed text so far and the reversed reference that is
being read, if any. -/
def divideFrom : List Char → Option (List Char) → List Char → Option (List Fragment)
  | acc, none, [] => some (ofText acc)
  | _, some _, [] => none
  | acc, none, '&' :: cs => (divideFrom [] (some []) cs).map (ofText acc ++ ·)
  | acc, none, c :: cs => divideFrom (c :: acc) none cs
  | _, some name, ';' :: cs =>
    match ofReference? name.reverse, divideFrom [] none cs with
    | some reference, some more => some (reference :: more)
    | _, _ => none
  | acc, some name, c :: cs => divideFrom acc (some (c :: name)) cs

/-- The fragments of a text; `none` if an ampersand begins no reference. -/
def divide? (cs : List Char) : Option (List Fragment) :=
  divideFrom [] none cs

end Fragment

/-- The text with every line ended by a line feed. -/
def normalizeLines : List Char → List Char
  | '\r' :: '\n' :: cs => '\n' :: normalizeLines cs
  | '\r' :: cs => '\n' :: normalizeLines cs
  | c :: cs => c :: normalizeLines cs
  | [] => []

end RegisterMap.Markup
