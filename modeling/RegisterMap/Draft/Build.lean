import RegisterMap.Draft.Basic
import RegisterMap.Log
import RegisterMap.NodePath.Read
import RegisterMap.Schema.Read

/-!
# Building drafts

The draft of a device is read from the elements of its document. Names are trimmed and have to be
present and distinct among siblings; everything else is copied as it is written. Only the register
properties are already passed down: after `buildDevice` each element knows the properties in effect
around it.

A faulty element is reported under its own path, or under the path of the element around it as long
as its name is unknown.
-/

namespace RegisterMap.Draft

/-- Report a value that cannot be read under a path. -/
def readAt {α : Type} (path : Option NodePath) (x : Except ReadFault α) : Except Error α :=
  x.mapError fun
    | .malformed cause => .schema path (.malformed cause)
    | .blank => .blankNumber

/-- Report a fault under a path. -/
def faultAt {α : Type} (path : NodePath) (fault : SchemaFault) : Except Error α :=
  .error (.schema (some path) fault)

/-- The value, which has to be present. -/
def require {α : Type} (path : NodePath) (fault : SchemaFault) : Option α → Except Error α
  | some a => .ok a
  | none => faultAt path fault

/-- The name of an element inside of the element at `parent`. -/
def requiredName (parent : NodePath) (kind : ElementKind) (e : Element) : Except Error String :=
  match e.string? "name" with
  | some name => if name.isEmpty then faultAt parent (.unnamed kind) else .ok (Text.trim name)
  | none => faultAt parent (.unnamed kind)

/-- The path of an element inside of the element at `parent`. -/
def pathOf (parent : NodePath) (name : String) : Except Error NodePath :=
  Error.liftMalformed (parent.enter name)

/-- The free text in a child element, with its blank space collapsed. -/
def description (e : Element) : Option String :=
  (e.string? "description").map Text.normalize

/-- The dimension of an array. -/
def dimension (path : NodePath) (e : Element) : Except Error (Option Dimension) := do
  let length ← readAt path (e.number? "dim")
  let step ← readAt path (e.number? "dimIncrement")
  match length, step with
  | none, none => return none
  | some length, some step =>
    if length < 1 then faultAt path (.invalidDimension length)
    return some { length, step, index := e.string? "dimIndex" }
  | _, _ => faultAt path .incompleteDimension

/-- The named values of a field. A value that stands for several numbers at once is passed over with
a warning, a value for all other numbers without one. -/
def buildEnums (path : NodePath) (built : List (String × Int)) :
    List Element → Logged (List (String × Int))
  | [] => pure built
  | e :: es =>
    match e.number? "value" with
    | .error (.malformed _) => do
      Logged.note (.skippedValue path (e.string? "name") ((e.string? "value").getD ""))
      buildEnums path built es
    | .error .blank => throw .blankNumber
    | .ok none => buildEnums path built es
    | .ok (some value) =>
      match e.string? "name" with
      | none => throw (.schema (some path) .unnamedValue)
      | some name =>
        if name.isEmpty then throw (.schema (some path) .unnamedValue)
        else if (built.map (·.1)).contains name then
          throw (.schema (some path) (.duplicateValue name))
        else buildEnums path (built ++ [(name, value)]) es

/-- The bit range of a field, which has to lie above bit zero and to hold a bit. -/
def buildBitRange (path : NodePath) (e : Element) : Except Error BitRange := do
  let range ← require path .noBitRange (← readAt path e.bitRange?)
  if range.offset < 0 ∨ range.width ≤ 0 then faultAt path (.invalidBitRange range)
  return range

/-- The field that an element describes. -/
def buildField (parent : NodePath) (e : Element) : Logged Field := do
  let name ← requiredName parent .field e
  let path ← pathOf parent name
  if e.derivedFrom?.isSome then throw (.schema (some path) .derivationNotSupported)
  let range ← buildBitRange path e
  let enums ←
    match e.child? "enumeratedValues" with
    | some values => buildEnums path [] (values.childrenTagged "enumeratedValue")
    | none => pure []
  let access ← readAt path (e.word? "access")
  let dim ← dimension path e
  return { name, bitRange := some range, access, description := description e, enums, dim }

/-- The fields that elements describe, continuing those that are built. -/
def buildFields (parent : NodePath) (built : List Field) : List Element → Logged (List Field)
  | [] => pure built
  | e :: es => do
    let field ← buildField parent e
    if (built.map (·.name)).contains field.name then
      throw (.schema (some (parent.child field.name)) (.duplicateField field.name))
    buildFields parent (built ++ [field]) es

/-- The register that an element describes. -/
def buildRegister (parent : NodePath) (e : Element) : Logged Register := do
  let name ← requiredName parent .register e
  let path ← pathOf parent name
  let derivedFrom := e.derivedFrom?
  let offset ← readAt path (e.number? "addressOffset")
  if offset.isNone && derivedFrom.isNone then
    throw (.schema (some path) (.noOffset .register))
  let fields ←
    match e.child? "fields" with
    | some fields => some <$> buildFields path [] (fields.childrenTagged "field")
    | none => pure none
  let props ← readAt path e.properties
  let dim ← dimension path e
  return {
    name, description := description e, props, dim, derivedFrom
    alternate := e.string? "alternateRegister", offset, fields }

/-- The cluster that an element describes, apart from its members. -/
def buildClusterHead (parent : NodePath) (e : Element) : Except Error Cluster := do
  let name ← requiredName parent .cluster e
  let path ← pathOf parent name
  if e.derivedFrom?.isSome then faultAt path .derivationNotSupported
  let offset ← require path (.noOffset .cluster) (← readAt path (e.number? "addressOffset"))
  let props ← readAt path e.properties
  let dim ← dimension path e
  return {
    name, description := description e, props, dim
    alternate := e.string? "alternateCluster", offset := some offset }

mutual

/-- The register or cluster that an element describes, if it describes one. -/
def buildMember (parent : NodePath) : Element → Logged (Option Member)
  | e@⟨_, _, _, _, children⟩ =>
    match e.tag with
    | "register" => do
      let r ← buildRegister parent e
      return some (.register r)
    | "cluster" => do
      let c ← buildClusterHead parent e
      let ms ← buildMembers (parent.child c.name) [] children
      return some (.cluster c ms)
    | _ => pure none

/-- The registers and clusters that elements describe, continuing those that are built. -/
def buildMembers (parent : NodePath) (built : List Member) : List Element → Logged (List Member)
  | [] => pure built
  | e :: es => do
    match ← buildMember parent e with
    | none => buildMembers parent built es
    | some m =>
      if (built.map (·.name)).contains m.name then
        throw (.schema (some (parent.child m.name)) (.duplicateMember m.name))
      buildMembers parent (built ++ [m]) es

end

/-- The address block that an element describes. -/
def buildAddressBlock (path : NodePath) (e : Element) : Except Error AddressBlock := do
  let offset ← readAt path (e.number? "offset")
  let size ← readAt path (e.number? "size")
  match offset, size with
  | some offset, some size =>
    let usage : Option Usage ← readAt path (e.word? "usage")
    let protection ← readAt path (e.word? "protection")
    return { offset, size, usage := usage.getD .registers, protection }
  | _, _ => faultAt path .incompleteAddressBlock

/-- The interrupt that an element describes. -/
def buildInterrupt (path : NodePath) (peripheral : String) (e : Element) :
    Except Error Interrupt := do
  let value ← readAt path (e.number? "value")
  match (e.string? "name").filter (!·.isEmpty), value with
  | some name, some value =>
    return { name, value, description := description e, peripheral }
  | _, _ => faultAt path .incompleteInterrupt

/-- The peripheral that an element describes. -/
def buildPeripheral (parent : NodePath) (e : Element) : Logged Peripheral := do
  let name ← requiredName parent .peripheral e
  let path ← pathOf parent name
  let derivedFrom := e.derivedFrom?
  let baseAddress ← readAt path (e.number? "baseAddress")
  if baseAddress.isNone && derivedFrom.isNone then throw (.schema (some path) .noBaseAddress)
  let blocks ← Logged.ofExcept ((e.childrenTagged "addressBlock").mapM (buildAddressBlock path))
  let interrupts ← Logged.ofExcept ((e.childrenTagged "interrupt").mapM (buildInterrupt path name))
  let members ←
    match e.child? "registers" with
    | some registers => some <$> buildMembers path [] registers.children
    | none => pure none
  let props ← readAt path e.properties
  let dim ← dimension path e
  return {
    name, description := description e, props, dim, derivedFrom
    alternate := e.string? "alternatePeripheral", baseAddress
    groupName := e.string? "groupName", version := e.string? "version"
    addressBlocks := if blocks.isEmpty then none else some blocks
    interrupts, members }

/-- The peripherals that elements describe, continuing those that are built. -/
def buildPeripherals (parent : NodePath) (built : List Peripheral) :
    List Element → Logged (List Peripheral)
  | [] => pure built
  | e :: es => do
    let p ← buildPeripheral parent e
    if (built.map (·.name)).contains p.name then
      throw (.schema (some (parent.child p.name)) (.duplicatePeripheral p.name))
    buildPeripherals parent (built ++ [p]) es

/-- The device that an element describes, without its peripherals. -/
def buildDeviceHead (e : Element) : Except Error Device := do
  let name := Text.trim ((e.string? "name").getD "")
  if (e.string? "name").all (·.isEmpty) then .error (.schema none .unnamedDevice)
  let path ← Error.liftMalformed (NodePath.ofArguments [.text name])
  let unit ← readAt path (e.number? "addressUnitBits")
  if let some bits := unit then
    if bits ≠ 8 then faultAt path (.addressUnit bits)
  let width ← readAt path (e.number? "width")
  let props ← readAt path e.properties
  return {
    name, version := e.string? "version", vendor := e.string? "vendor"
    description := description e, width, props }

/-- The draft of the device that the root element of a document describes. -/
def buildDevice (root : Element) : Logged Device := do
  if root.tag ≠ "device" then throw (.schema none (.unexpectedRoot root.tag))
  let head ← buildDeviceHead root
  let elements := ((root.child? "peripherals").map (·.childrenTagged "peripheral")).getD []
  let peripherals ← buildPeripherals head.path [] elements
  Logged.note (.built peripherals.length head.name)
  return { head with peripherals := peripherals.map (Peripheral.withDefaults head.props) }

end RegisterMap.Draft
