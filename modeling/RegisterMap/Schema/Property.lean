import RegisterMap.Schema.Class

/-!
# Properties of elements

A document can be looked at without being resolved: each class of elements has properties, which are
read from the element on demand. Any other name denotes the first child element with that tag, and
cannot be read if there is none.

Main definitions: `Element.reading?` for the properties of a class, and `Element.readNamed`.
-/

namespace RegisterMap

/-- The properties of elements. -/
inductive Property where
  | name
  | version
  | vendor
  | description
  | groupName
  | addressUnitBits
  | width
  | registerProperties
  | peripherals
  | peripheral
  | registers
  | cluster
  | register
  | fields
  | field
  | enumeratedValues
  | enums
  | interrupts
  | addressBlocks
  | baseAddress
  | offset
  | size
  | usage
  | protection
  | value
  | access
  | bitRange
  | dim
  | dimIncrement
  | dimIndex
  | derivedFrom
  | alternatePeripheral
  | alternateCluster
  | alternateRegister
  | word
deriving DecidableEq, Repr

/-- The property with a name. The word of an element has none, since it is not a part of it. -/
def Property.ofName? (name : String) : Option Property :=
  match name with
  | "name" => some .name
  | "version" => some .version
  | "vendor" => some .vendor
  | "description" => some .description
  | "group_name" => some .groupName
  | "address_unit_bits" => some .addressUnitBits
  | "width" => some .width
  | "register_properties" => some .registerProperties
  | "peripherals" => some .peripherals
  | "peripheral" => some .peripheral
  | "registers" => some .registers
  | "cluster" => some .cluster
  | "register" => some .register
  | "fields" => some .fields
  | "field" => some .field
  | "enumerated_values" => some .enumeratedValues
  | "enums" => some .enums
  | "interrupts" => some .interrupts
  | "address_blocks" => some .addressBlocks
  | "base_address" => some .baseAddress
  | "offset" => some .offset
  | "size" => some .size
  | "usage" => some .usage
  | "protection" => some .protection
  | "value" => some .value
  | "access" => some .access
  | "bit_range" => some .bitRange
  | "dim" => some .dim
  | "dim_increment" => some .dimIncrement
  | "dim_index" => some .dimIndex
  | "derived_from" => some .derivedFrom
  | "alternate_peripheral" => some .alternatePeripheral
  | "alternate_cluster" => some .alternateCluster
  | "alternate_register" => some .alternateRegister
  | _ => none

/-- The value of a property. -/
inductive Reading where
  | absent
  | string (s : String)
  | number (n : Int)
  | access (a : Access)
  | usage (u : Usage)
  | protection (p : Protection)
  | bitRange (r : BitRange)
  | properties (p : RegisterProperties)
  | element (e : Element)
  | elements (es : List Element)
deriving Repr

namespace Reading

/-- A text, if it is present. -/
def ofString? (s : Option String) : Reading :=
  (s.map .string).getD .absent

/-- An element, if it is present. -/
def ofElement? (e : Option Element) : Reading :=
  (e.map .element).getD .absent

end Reading

namespace Element

/-- A number in a child element as the value of a property. -/
def numberReading (e : Element) (tag : String) : Except ReadFault Reading :=
  (e.number? tag).map fun n => (n.map .number).getD .absent

/-- The properties that arrays have in common. -/
def dimensionReading (e : Element) : Property → Option (Except ReadFault Reading)
  | .dim => some (e.numberReading "dim")
  | .dimIncrement => some (e.numberReading "dimIncrement")
  | .dimIndex => some (.ok (.ofString? (e.string? "dimIndex")))
  | .derivedFrom => some (.ok (.ofString? e.derivedFrom?))
  | _ => none

/-- The properties that peripherals, clusters and registers have in common. -/
def commonReading (e : Element) (p : Property) : Option (Except ReadFault Reading) :=
  match p with
  | .name => some (.ok (.ofString? (e.string? "name")))
  | .description => some (.ok (.ofString? (e.string? "description")))
  | .registerProperties => some (e.properties.map .properties)
  | p => e.dimensionReading p

/-- The value of a property, if the class of the element has it. -/
def reading? (e : Element) (p : Property) : Option (Except ReadFault Reading) :=
  let string tag := some (.ok (.ofString? (e.string? tag)))
  let number tag := some (e.numberReading tag)
  let child tag := some (.ok (.ofElement? (e.child? tag)))
  let usage := some ((e.word? "usage").map fun w => (w.map .usage).getD .absent)
  let protection := some ((e.word? "protection").map fun w => (w.map .protection).getD .absent)
  let access := some ((e.word? "access").map fun w => (w.map .access).getD .absent)
  match e.elementClass, p with
  | .device, .name => string "name"
  | .device, .version => string "version"
  | .device, .vendor => string "vendor"
  | .device, .description => string "description"
  | .device, .addressUnitBits => number "addressUnitBits"
  | .device, .width => number "width"
  | .device, .registerProperties => some (e.properties.map .properties)
  | .device, .peripherals =>
    some (.ok (.elements (((e.child? "peripherals").map (·.childrenTagged "peripheral")).getD [])))
  | .peripherals, .peripheral => child "peripheral"
  | .peripheral, .version => string "version"
  | .peripheral, .groupName => string "groupName"
  | .peripheral, .baseAddress => number "baseAddress"
  | .peripheral, .alternatePeripheral => string "alternatePeripheral"
  | .peripheral, .interrupts => some (.ok (.elements (e.childrenTagged "interrupt")))
  | .peripheral, .addressBlocks => some (.ok (.elements (e.childrenTagged "addressBlock")))
  | .peripheral, .registers =>
    some (.ok (((e.child? "registers").map fun r => .elements r.memberElements).getD .absent))
  | .peripheral, p => e.commonReading p
  | .registers, .cluster => child "cluster"
  | .registers, .register => child "register"
  | .cluster, .offset => number "addressOffset"
  | .cluster, .alternateCluster => string "alternateCluster"
  | .cluster, .registers => some (.ok (.elements e.memberElements))
  | .cluster, p => e.commonReading p
  | .register, .offset => number "addressOffset"
  | .register, .alternateRegister => string "alternateRegister"
  | .register, .fields =>
    some (.ok (((e.child? "fields").map fun f => .elements (f.childrenTagged "field")).getD
      .absent))
  | .register, p => e.commonReading p
  | .field, .name => string "name"
  | .field, .description => string "description"
  | .field, .access => access
  | .field, .enumeratedValues => child "enumeratedValues"
  | .field, .bitRange => some (e.bitRange?.map fun r => (r.map .bitRange).getD .absent)
  | .field, p => e.dimensionReading p
  | .enumeratedValues, .enums => some (.ok (.elements (e.childrenTagged "enumeratedValue")))
  | .enumeratedValue, .name => string "name"
  | .enumeratedValue, .value => number "value"
  | .addressBlock, .offset => number "offset"
  | .addressBlock, .size => number "size"
  | .addressBlock, .usage => usage
  | .addressBlock, .protection => protection
  | .interrupt, .name => string "name"
  | .interrupt, .description => string "description"
  | .interrupt, .value => number "value"
  | .word .access, .word => some (((readWord e.text).map .access).mapError .malformed)
  | .word .usage, .word => some (((readWord e.text).map .usage).mapError .malformed)
  | .word .protection, .word => some (((readWord e.text).map .protection).mapError .malformed)
  | _, _ => none

/-- The value of a property. -/
def reading (e : Element) (p : Property) : Except Error Reading :=
  match e.reading? p with
  | some r => r.mapError (·.toError)
  | none => .error .noProperty

/-- The namespace of the element in braces, if it has one, as it stands before the name. -/
def namespaceMark (e : Element) : List Char :=
  let close := Char.ofNat 0x7D
  let cs := e.tag.toList
  if cs.contains close then cs.takeWhile (· != close) ++ [close] else []

/-- The first child element with a name in the namespace of the element. -/
def childNamed? (e : Element) (name : String) : Option Element :=
  e.child? (String.ofList e.namespaceMark ++ name)

/-- What a name denotes in the element: a property of its class, or else a child element. -/
def readNamed (e : Element) (name : String) : Except Error Reading :=
  match (Property.ofName? name).bind e.reading? with
  | some r => r.mapError (·.toError)
  | none =>
    match e.childNamed? name with
    | some child => .ok (.element child)
    | none => .error .noProperty

end Element

end RegisterMap
