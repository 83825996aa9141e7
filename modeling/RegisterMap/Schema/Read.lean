import RegisterMap.Error
import RegisterMap.Markup.Element

/-!
# Values in elements

The format writes each value of an element as a child element whose tag names the value, or as an
attribute. If a tag is repeated, its first occurrence counts. An absent value is `none`; defaults
are never filled in here.
-/

namespace RegisterMap

/-- Why a value cannot be read. -/
inductive ReadFault where
  | malformed (cause : Malformed)
  /-- An integer element has no character data. -/
  | blank
deriving DecidableEq, Repr

/-- The fault as an error without a place. -/
def ReadFault.toError : ReadFault → Error
  | .malformed cause => .malformed cause
  | .blank => .blankNumber

namespace Element

/-- The text of a child element. -/
def string? (e : Element) (tag : String) : Option String :=
  (e.child? tag).map content

/-- The number that an element contains. -/
def numberContent (e : Element) : Except ReadFault Int :=
  match e.text with
  | some s => (readNumber s).mapError .malformed
  | none => .error .blank

/-- The number in a child element. -/
def number? (e : Element) (tag : String) : Except ReadFault (Option Int) :=
  match e.child? tag with
  | some c => c.numberContent.map some
  | none => .ok none

/-- The word of a vocabulary in a child element. -/
def word? {α : Type} [Vocabulary α] (e : Element) (tag : String) : Except ReadFault (Option α) :=
  match e.child? tag with
  | some c => ((readWord c.text).map some).mapError .malformed
  | none => .ok none

/-- The reference in the attribute for derivations, without surrounding blank space. -/
def derivedFrom? (e : Element) : Option String :=
  (e.attribute? "derivedFrom").map Text.trim

/-- The group of register properties that the element gives for itself. -/
def properties (e : Element) : Except ReadFault RegisterProperties := do
  let size ← e.number? "size"
  let access ← e.word? "access"
  let protection ← e.word? "protection"
  let resetValue ← e.number? "resetValue"
  let resetMask ← e.number? "resetMask"
  return { size, access, protection, resetValue, resetMask }

/-- The bit range that a text such as `[7:4]` denotes. The brackets are taken for granted: one
character is dropped at each end. -/
def bitRangeOfText (s : String) : Except Malformed BitRange :=
  let inner := ((Text.trim s).toList.drop 1).dropLast
  match Text.pieces ':' (String.ofList inner) with
  | [high, low] => do
    let msb ← readNumber high
    let lsb ← readNumber low
    return BitRange.between lsb msb
  | parts => .error (.bounds parts.length)

/-- The bit range of a field, in the first of three styles that is complete: by its lowest and
highest bits, by its offset and width, or as a text. The width is one if only the offset is
given. -/
def bitRange? (e : Element) : Except ReadFault (Option BitRange) := do
  if let some lsb ← e.number? "lsb" then
    if let some msb ← e.number? "msb" then
      return some (BitRange.between lsb msb)
  if let some offset ← e.number? "bitOffset" then
    let width ← e.number? "bitWidth"
    return some { offset, width := width.getD 1 }
  match e.string? "bitRange" with
  | some s => ((bitRangeOfText s).map some).mapError .malformed
  | none => return none

/-- The registers and clusters directly inside of an element, in document order. -/
def memberElements (e : Element) : List Element :=
  e.children.filter fun c => c.tag == "register" || c.tag == "cluster"

end Element

end RegisterMap
