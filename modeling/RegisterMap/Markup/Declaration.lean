import RegisterMap.Markup.Tag

/-!
# The declaration of a document

A document can begin with a declaration of its version, its encoding, and whether it stands alone.
The version is required; the three stand in this order.
-/

namespace RegisterMap.Markup

/-- What a document declares about itself. -/
structure Declaration where
  version : List Char
  encoding : Option (List Char)
  standalone : Bool
deriving DecidableEq, Repr

namespace Declaration

/-- A version is a one, a full stop and digits. -/
def isVersion : List Char → Bool
  | '1' :: '.' :: digits => digits.all Char.isDigit
  | _ => false

/-- The name of an encoding begins with a letter. -/
def isEncodingName : List Char → Bool
  | [] => false
  | c :: cs => c.isAlpha && cs.all fun c => c.isAlphanum || c == '.' || c == '_' || c == '-'

/-- The instruction is the declaration of a document. -/
def isDeclaration (raw : List Char) : Bool :=
  match raw with
  | 'x' :: 'm' :: 'l' :: c :: _ => isSpace c
  | _ => false

/-- Read the declaration of a document from what stands between its delimiters. -/
def read? (raw : List Char) : Option Declaration :=
  match attributesFrom (raw.drop 3) with
  | some (attributes, false) =>
    let parts := attributes.map fun a => (String.ofList a.name, a.value)
    let keys := parts.map (·.1)
    let version := (parts.lookup "version").getD []
    let encoding := parts.lookup "encoding"
    let standalone := (parts.lookup "standalone").map String.ofList
    if keys == ["version", "encoding", "standalone"].filter (keys.contains ·) &&
        isVersion version && encoding.all isEncodingName &&
        standalone.all fun s => s == "yes" || s == "no" then
      some { version, encoding, standalone := standalone = some "yes" }
    else none
  | _ => none

end Declaration

end RegisterMap.Markup
