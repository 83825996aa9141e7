import RegisterMap.AddressBlock
import RegisterMap.Interrupt
import RegisterMap.NameMap
import RegisterMap.NameSet
import RegisterMap.NodePath.Basic

/-!
# Devices

A device as a driver writer sees it: everything is resolved. Derivations are merged, arrays are
replaced by their instances, alternates are linked, and each peripheral, cluster and register has
its absolute address.

The tree has the same shape as a draft, but nothing that a register needs is left open, and every
element knows its path.
-/

namespace RegisterMap

/-- A group of bits in a register. -/
structure Field where
  name : String
  path : NodePath
  bitRange : BitRange
  access : Access
  description : Option String := none
  enums : NameMap Int := ∅
  /-- The alias address of each bit, if the register lies in a bit-band region. -/
  bitBand : Option (List Int) := none
deriving DecidableEq, Repr

/-- A register. -/
structure Register where
  name : String
  path : NodePath
  /-- The address relative to the element around the register. -/
  offset : Int
  address : Int
  /-- The width in bits. -/
  size : Int
  access : Access
  resetValue : Int
  resetMask : Int
  protection : Option Protection := none
  description : Option String := none
  /-- The register of which this one is declared to be another view. -/
  alternate : Option String := none
  alternates : NameSet := ∅
  fields : List Field := []
  /-- The alias address of each bit, if the register lies in a bit-band region. -/
  bitBand : Option (List Int) := none
deriving DecidableEq, Repr

/-- A cluster, apart from its members. -/
structure Cluster where
  name : String
  path : NodePath
  /-- The address relative to the element around the cluster. -/
  offset : Int
  address : Int
  /-- The number of bytes up to the end of the last member. -/
  size : Int
  description : Option String := none
  alternate : Option String := none
  alternates : NameSet := ∅
deriving DecidableEq, Repr

/-- A register or a cluster inside of a peripheral or cluster. -/
inductive Member where
  | register (r : Register)
  | cluster (c : Cluster) (members : List Member)
deriving Repr

/-- A peripheral. -/
structure Peripheral where
  name : String
  path : NodePath
  /-- The base address. -/
  address : Int
  description : Option String := none
  groupName : Option String := none
  version : Option String := none
  alternate : Option String := none
  alternates : NameSet := ∅
  addressBlocks : List AddressBlock := []
  interrupts : List Interrupt := []
  /-- The properties that registers in the peripheral have unless they say otherwise. -/
  properties : RegisterProperties := {}
  members : List Member := []
deriving Repr

/-- A device. -/
structure Device where
  name : String
  version : Option String := none
  vendor : Option String := none
  description : Option String := none
  addressUnitBits : Int := 8
  width : Option Int := none
  properties : RegisterProperties := {}
  peripherals : List Peripheral := []
  /-- The interrupts of all peripherals, one for each name. -/
  interrupts : List Interrupt := []
deriving Repr

namespace Member

mutual

/-- Decide whether two members are equal. -/
def decEq : (m n : Member) → Decidable (m = n)
  | .register r, .register s =>
    if h : r = s then isTrue (h ▸ rfl) else isFalse fun e => h (Member.register.inj e)
  | .cluster c ms, .cluster d ns =>
    if h : c = d then
      match decEqAll ms ns with
      | isTrue h' => isTrue (h ▸ h' ▸ rfl)
      | isFalse h' => isFalse fun e => h' (Member.cluster.inj e).2
    else isFalse fun e => h (Member.cluster.inj e).1
  | .register _, .cluster .. => isFalse nofun
  | .cluster .., .register _ => isFalse nofun

/-- Decide whether two lists of members are equal. -/
def decEqAll : (ms ns : List Member) → Decidable (ms = ns)
  | [], [] => isTrue rfl
  | m :: ms, n :: ns =>
    match decEq m n, decEqAll ms ns with
    | isTrue h, isTrue h' => isTrue (h ▸ h' ▸ rfl)
    | isFalse h, _ => isFalse fun e => h (List.cons.inj e).1
    | _, isFalse h' => isFalse fun e => h' (List.cons.inj e).2
  | [], _ :: _ => isFalse nofun
  | _ :: _, [] => isFalse nofun

end

instance : DecidableEq Member := decEq

/-- The name of the member. -/
def name : Member → String
  | .register r => r.name
  | .cluster c _ => c.name

/-- The path of the member. -/
def path : Member → NodePath
  | .register r => r.path
  | .cluster c _ => c.path

/-- The names of the siblings of which the member is another view. -/
def alternates : Member → NameSet
  | .register r => r.alternates
  | .cluster c _ => c.alternates

end Member

deriving instance DecidableEq for Peripheral, Device

/-- The bytes that hold the bits of the register. -/
def Register.byteSize (r : Register) : Int :=
  (r.size + 7) / 8

/-- The addresses of the register. -/
def Register.range (r : Register) : AddressRange :=
  { start := r.address, stop := r.address + r.byteSize }

/-- The addresses of the cluster, up to the end of its last member. -/
def Cluster.range (c : Cluster) : AddressRange :=
  { start := c.address, stop := c.address + c.size }

/-- The addresses of the member. -/
def Member.range : Member → AddressRange
  | .register r => r.range
  | .cluster c _ => c.range

/-- The addresses of the peripheral: its address blocks, or the span of its members if it has
none. -/
def Peripheral.ranges (p : Peripheral) : List AddressRange :=
  if p.addressBlocks.isEmpty then
    let spans := (p.members.map Member.range).filter (!·.isEmpty)
    match (spans.map AddressRange.start).min?, (spans.map AddressRange.stop).max? with
    | some start, some stop => [{ start, stop }]
    | _, _ => []
  else p.addressBlocks.map (·.range p.address)

end RegisterMap
