import RegisterMap.AddressBlock
import RegisterMap.Dimension
import RegisterMap.Interrupt
import RegisterMap.NameSet

/-!
# Drafts

A draft is a device on its way from the document to the resolved model. What the document leaves
open is `none`, and so is what has not been resolved yet. The draft is a tree: a device has
peripherals, a peripheral or cluster has registers and clusters as its members, a register has
fields.

Paths are not part of a draft. The path of an element is the path of the element around it continued
by its own name, so an element that is copied, moved or renamed is always at the path where it
stands.
-/

namespace RegisterMap.Draft

/-- A field of a register. -/
structure Field where
  name : String
  bitRange : Option BitRange := none
  access : Option Access := none
  description : Option String := none
  /-- The named values, in document order. -/
  enums : List (String × Int) := []
  dim : Option Dimension := none
deriving DecidableEq, Repr

/-- What peripherals, clusters and registers have in common. -/
structure Header where
  name : String
  description : Option String := none
  /-- The register properties given on the element itself. -/
  props : RegisterProperties := {}
  /-- The register properties in effect around the element. -/
  defaults : RegisterProperties := {}
  dim : Option Dimension := none
  /-- The element from which open attributes are to be taken. -/
  derivedFrom : Option String := none
  /-- The sibling of which the element is another view. -/
  alternate : Option String := none
  /-- The siblings that the element is known to be another view of. -/
  alternates : NameSet := ∅
  address : Option Int := none
deriving DecidableEq, Repr

/-- The register properties in effect for the element. -/
def Header.effective (h : Header) : RegisterProperties :=
  h.props.inherit h.defaults

/-- A register. -/
structure Register extends Header where
  offset : Option Int := none
  /-- `none` if the element for fields is absent. -/
  fields : Option (List Field) := none
deriving DecidableEq, Repr

/-- A cluster, apart from its members. -/
structure Cluster extends Header where
  offset : Option Int := none
  /-- The number of bytes that the cluster spans. -/
  size : Int := 0
deriving DecidableEq, Repr

/-- A register or a cluster inside of a peripheral or cluster. -/
inductive Member where
  | register (r : Register)
  | cluster (c : Cluster) (members : List Member)
deriving Repr

/-- A peripheral. -/
structure Peripheral extends Header where
  baseAddress : Option Int := none
  groupName : Option String := none
  version : Option String := none
  /-- `none` if there are no elements for address blocks. -/
  addressBlocks : Option (List AddressBlock) := none
  interrupts : List Interrupt := []
  /-- The declared name of the array that the peripheral is an instance of. -/
  arrayName : Option String := none
  /-- `none` if the element for registers is absent. -/
  members : Option (List Member) := none
deriving Repr

/-- A device. -/
structure Device where
  name : String
  version : Option String := none
  vendor : Option String := none
  description : Option String := none
  addressUnitBits : Int := 8
  width : Option Int := none
  props : RegisterProperties := {}
  peripherals : List Peripheral := []
deriving Repr

/-- The path of the device. -/
def Device.path (d : Device) : NodePath :=
  NodePath.child ⟨[]⟩ d.name

/-- The members of the peripheral. -/
def Peripheral.memberList (p : Peripheral) : List Member :=
  p.members.getD []

/-- The fields of the register. -/
def Register.fieldList (r : Register) : List Field :=
  r.fields.getD []

namespace Member

/-- What the member has in common with other elements. -/
def header : Member → Header
  | .register r => r.toHeader
  | .cluster c _ => c.toHeader

/-- The name of the member. -/
def name (m : Member) : String :=
  m.header.name

/-- The address relative to the element around the member. -/
def offset : Member → Option Int
  | .register r => r.offset
  | .cluster c _ => c.offset

/-- The member with another header. -/
def withHeader (h : Header) : Member → Member
  | .register r => .register { r with toHeader := h }
  | .cluster c ms => .cluster { c with toHeader := h } ms

/-- The members of a cluster; a register has none. -/
def members : Member → List Member
  | .register _ => []
  | .cluster _ ms => ms

/-- Whether the member is a register or a cluster. -/
def kind : Member → ElementKind
  | .register _ => .register
  | .cluster _ _ => .cluster

@[simp] theorem header_withHeader (h : Header) (m : Member) : (m.withHeader h).header = h := by
  cases m <;> rfl

@[simp] theorem members_withHeader (h : Header) (m : Member) :
    (m.withHeader h).members = m.members := by
  cases m <;> rfl

@[simp] theorem withHeader_header (m : Member) : m.withHeader m.header = m := by
  cases m <;> rfl

mutual

/-- Set the properties in effect around the member, and with them those around everything in it. -/
def withDefaults (defaults : RegisterProperties) : Member → Member
  | .register r => .register { r with defaults }
  | .cluster c ms =>
    .cluster { c with defaults } (withDefaultsAll (c.props.inherit defaults) ms)

/-- Set the properties in effect around each of the members. -/
def withDefaultsAll (defaults : RegisterProperties) : List Member → List Member
  | [] => []
  | m :: ms => withDefaults defaults m :: withDefaultsAll defaults ms

end

theorem withDefaultsAll_eq_map (defaults : RegisterProperties) (ms : List Member) :
    withDefaultsAll defaults ms = ms.map (withDefaults defaults) := by
  induction ms with
  | nil => rfl
  | cons m ms ih => simp [withDefaultsAll, ih]

end Member

/-- Set the properties in effect around the peripheral, and with them those around its registers. -/
def Peripheral.withDefaults (defaults : RegisterProperties) (p : Peripheral) : Peripheral :=
  { p with
    defaults
    members := p.members.map (Member.withDefaultsAll (p.props.inherit defaults)) }

end RegisterMap.Draft
