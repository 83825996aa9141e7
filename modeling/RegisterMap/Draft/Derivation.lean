import RegisterMap.Chain
import RegisterMap.Draft.Scope
import RegisterMap.Log
import RegisterMap.NodePath.Read

/-!
# Derivation

A peripheral or register may be derived from another one, and takes from it what it leaves open.
The base may be derived itself, so derivations form chains.

Peripherals come first. They are derived in an order in which every base precedes what is derived
from it, and a peripheral that takes over the registers of its base gets them as they are written:
references between them are then followed in the new place. Registers come second. The chain of a
register is followed through the device as it stands, and the register is derived from what remains
of the chain, so the result does not depend on the order in which registers are visited.

Main definitions: `derivationOrder`, `Peripheral.derive`, `Register.derive`, and
`Device.resolveDerivations`.
-/

namespace RegisterMap.Draft

/-- A peripheral and its index in the device. -/
abbrev Numbered := Peripheral × Nat

/-- The peripherals that are derived from the name, and the others. -/
def splitDerived (name : String) (ps : List Numbered) : List Numbered × List Numbered :=
  ps.partition fun p => p.1.derivedFrom = some name

theorem length_splitDerived (name : String) (ps : List Numbered) :
    (splitDerived name ps).1.length + (splitDerived name ps).2.length = ps.length := by
  have := List.length_eq_countP_add_countP (l := ps) fun p => decide (p.1.derivedFrom = some name)
  simp only [splitDerived, List.partition_eq_filter_filter, ← List.countP_eq_length_filter]
  simp only [this]
  congr 1
  apply List.countP_congr
  simp

/-- The peripherals that are ready, each followed by those that are derived from it, as far as they
are waiting; and the peripherals that are still waiting at the end. -/
def preorder (waiting ready : List Numbered) : List Numbered × List Numbered :=
  match ready with
  | [] => ([], waiting)
  | p :: ready =>
    let split := splitDerived p.1.name waiting
    let rest := preorder split.2 (split.1 ++ ready)
    (p :: rest.1, rest.2)
termination_by waiting.length + ready.length
decreasing_by
  have := length_splitDerived p.1.name waiting
  simp only [List.length_append, List.length_cons]
  omega

/-- The last of several peripherals with a name. -/
def lastNamed? (ps : List Numbered) (name : String) : Option Numbered :=
  ps.reverse.find? (·.1.name == name)

/-- The peripheral among `ps` from which a peripheral is derived. -/
def baseAmong (ps : List Numbered) (p : Numbered) : Except Error (Option Numbered) :=
  match p.1.derivedFrom with
  | none => .ok none
  | some name =>
    match lastNamed? ps name with
    | some base => .ok (some base)
    | none => .error (.unknownName name)

/-- The error for peripherals that wait for each other: the loop into which the references from the
first of them lead. -/
def waitingError (parent : NodePath) (first : Numbered) (others : List Numbered) : Error :=
  let waiting := first :: others
  let chain := Chain.follow (·.2) (baseAmong waiting) (others.map (·.2)) first
  let paths (ps : List Numbered) := ps.map fun p => parent.child p.1.name
  match chain.ending with
  | .broken e => e
  | .returned again => .cycle (paths (Chain.loop (·.2) chain.items again))
  | .finished => .cycle (paths chain.items)

/-- The peripherals in an order in which every base precedes what is derived from it. Peripherals
that are not derived, and those with the same base, keep the order in which they are declared. -/
def derivationOrder (parent : NodePath) (ps : List Peripheral) : Except Error (List Numbered) :=
  let (waiting, ready) := ps.zipIdx.partition (·.1.derivedFrom.isSome)
  match preorder waiting ready with
  | (order, []) => .ok order
  | (_, first :: others) => .error (waitingError parent first others)

/-- The peripheral with what it leaves open taken from `base`. -/
def Peripheral.derive (p base : Peripheral) : Peripheral :=
  { p with
    description := p.description.or base.description
    props := p.props.inherit base.props
    derivedFrom := none
    baseAddress := p.baseAddress.or base.baseAddress
    groupName := p.groupName.or base.groupName
    version := p.version.or base.version
    addressBlocks := p.addressBlocks.or base.addressBlocks
    members := p.members.or base.members }

/-- Derive the peripheral at an index from the peripheral to which it refers. -/
def derivePeripheral (defaults : RegisterProperties) (ps : List Peripheral) (p : Numbered) :
    List Peripheral :=
  match p.1.derivedFrom.bind (lastNamed? ps.zipIdx) with
  | some base => ps.modify p.2 fun q => (q.derive base.1).withDefaults defaults
  | none => ps

/-- Each peripheral that is derived refers to a peripheral of the device. -/
def Device.checkBases (d : Device) : Except Error Unit :=
  d.peripherals.forM fun p =>
    match p.derivedFrom with
    | none => .ok ()
    | some name =>
      if d.peripherals.any (·.name == name) then .ok ()
      else .error (.missingReference (d.path.child p.name) name .derivation)

/-- The device with derived peripherals resolved, and their number. -/
def Device.derivePeripherals (d : Device) : Except Error (Device × Nat) := do
  d.checkBases
  let order ← derivationOrder d.path d.peripherals
  let derived := order.filter (·.1.derivedFrom.isSome)
  let peripherals := derived.foldl (derivePeripheral d.props) d.peripherals
  return ({ d with peripherals }, derived.length)

/-- The register with what it leaves open taken from `base`. The properties in effect for the base
come before those around the register. -/
def Register.derive (r base : Register) : Register :=
  { r with
    description := r.description.or base.description
    props := r.props.inherit base.effective
    derivedFrom := none
    offset := r.offset.or base.offset
    fields := r.fields.or base.fields }

/-- A register derived from the first of its bases, which is derived from the second, and so on. -/
def Register.deriveAlong (r : Register) : List Register → Register
  | [] => r
  | base :: bases => r.derive (base.deriveAlong bases)

/-- The register to which a register refers: the first register of the name in the same scope, or
else the one at the dotted path. -/
def Device.baseOf (d : Device) (s : Site) : Except Error (Option Site) :=
  match s.register.derivedFrom with
  | none => .ok none
  | some name =>
    let sibling := s.scope.registers.find? (·.register.name == name)
    match sibling.or ((NodePath.ofReference name).toOption.bind d.find?) with
    | some base => .ok (some base)
    | none => .error (.missingReference s.path name .derivation)

/-- The registers from which a register is derived, starting with itself. -/
def Device.chainOf (d : Device) (s : Site) : Chain Error Site :=
  Chain.follow Site.position d.baseOf ((d.sites.map Site.position).erase s.position) s

/-- The register that remains when the chain of a register is derived. -/
def Device.deriveRegister (d : Device) (s : Site) : Except Error Register :=
  let chain := d.chainOf s
  match chain.ending with
  | .finished => .ok (s.register.deriveAlong (chain.items.tail.map (·.register)))
  | .broken e => .error e
  | .returned again => .error (.cycle ((Chain.loop Site.position chain.items again).map Site.path))

/-- The device with derived registers resolved, and their number. -/
def Device.deriveRegisters (d : Device) : Except Error (Device × Nat) := do
  let derived := d.sites.filter (·.register.derivedFrom.isSome)
  let resolved ← derived.mapM fun s => return (s.position, ← d.deriveRegister s)
  return (d.mapRegisters fun position r => (resolved.lookup position).getD r, derived.length)

/-- The device with all derivations resolved. -/
def Device.resolveDerivations (d : Device) : Logged Device := do
  let (d, peripherals) ← d.derivePeripherals
  let (d, registers) ← d.deriveRegisters
  Logged.note (.derived peripherals registers)
  return d

end RegisterMap.Draft
