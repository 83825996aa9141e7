import RegisterMap.Schema.Read

/-!
# Classes of elements

The tag of an element decides what it holds: other elements, a word of a vocabulary, a number, or
text. Elements with members and words are described by their tag, the line of their start tag and
what identifies them, followed by the description of the element around them.
-/

namespace RegisterMap

/-- What the elements with a tag hold. -/
inductive ElementClass where
  | device
  | peripherals
  | peripheral
  | registers
  | cluster
  | register
  | fields
  | field
  | enumeratedValues
  | enumeratedValue
  | addressBlock
  | interrupt
  | word (kind : VocabularyKind)
  | number
  | string
  | unknown
deriving DecidableEq, Repr

/-- The class of the elements with a tag. -/
def ElementClass.ofTag (tag : String) : ElementClass :=
  match tag with
  | "device" => .device
  | "peripherals" => .peripherals
  | "peripheral" => .peripheral
  | "registers" => .registers
  | "cluster" => .cluster
  | "register" => .register
  | "fields" => .fields
  | "field" => .field
  | "enumeratedValues" => .enumeratedValues
  | "enumeratedValue" => .enumeratedValue
  | "addressBlock" => .addressBlock
  | "interrupt" => .interrupt
  | "access" => .word .access
  | "usage" => .word .usage
  | "protection" => .word .protection
  | "size" | "resetValue" | "resetMask" | "offset" | "value" | "baseAddress" | "addressOffset"
  | "addressUnitBits" | "width" | "dim" | "dimIncrement" | "lsb" | "msb" | "bitOffset"
  | "bitWidth" => .number
  | "name" | "version" | "vendor" | "description" | "groupName" | "alternatePeripheral"
  | "alternateCluster" | "alternateRegister" | "dimIndex" | "bitRange" => .string
  | _ => .unknown

namespace Element

/-- What the element holds. -/
def elementClass (e : Element) : ElementClass :=
  ElementClass.ofTag e.tag

/-- The class of the element has a description. -/
def isDescribed (e : Element) : Bool :=
  match e.elementClass with
  | .number | .string | .unknown => false
  | _ => true

/-- A text that may be absent, as descriptions show it. -/
def describeOption (s : Option String) : String :=
  (s.map Text.quoted).getD "None"

/-- What identifies the element among its kind. -/
def identity (e : Element) : List (String × String) :=
  match e.elementClass with
  | .peripheral =>
    ("name", describeOption (e.string? "name")) ::
      (e.derivedFrom?.map fun r => ("derived_from", Text.quoted r)).toList
  | .cluster | .register | .field => [("name", describeOption (e.string? "name"))]
  | .word _ => [("text", describeOption e.text)]
  | _ => []

/-- The element described without the elements around it. -/
def describeHead (e : Element) : String :=
  let extra :=
    match e.identity with
    | [] => ""
    | pairs =>
      " \x7b" ++ String.intercalate ", " (pairs.map fun p => "'" ++ p.1 ++ "': " ++ p.2) ++ "\x7d"
  "[" ++ e.tag ++ ":" ++ toString e.line ++ extra ++ "]"

/-- An element and those around it, innermost first, as descriptions show them. -/
def describeWithin : List Element → Except ReadFault String
  | [] => .ok ""
  | e :: outer =>
    match e.elementClass with
    | .number => e.numberContent.map toString
    | .string => .ok (Text.quoted e.content)
    | .unknown => .ok ("<Element " ++ e.tag ++ ">")
    | _ =>
      match outer with
      | [] => .ok e.describeHead
      | outer => (describeWithin outer).map fun place => e.describeHead ++ " in " ++ place

mutual

/-- The element and everything in it in document order, each with the elements around it. -/
def withAncestors (outer : List Element) : Element → List (List Element)
  | ⟨tag, line, attributes, text, children⟩ =>
    let chain := ⟨tag, line, attributes, text, children⟩ :: outer
    chain :: withAncestorsAll chain children

/-- The elements and everything in them in document order, each with the elements around it. -/
def withAncestorsAll (outer : List Element) : List Element → List (List Element)
  | [] => []
  | e :: es => withAncestors outer e ++ withAncestorsAll outer es

end

/-- The element that is reached by going down to the child at each of the positions. -/
def descend? (e : Element) : List Int → Option Element
  | [] => some e
  | i :: is => if i < 0 then none else (e.children[i.toNat]?).bind (·.descend? is)

end Element

end RegisterMap
