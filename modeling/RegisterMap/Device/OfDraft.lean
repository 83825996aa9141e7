import RegisterMap.Device.Basic
import RegisterMap.Draft.Placement

/-!
# Devices from drafts

`Device.ofDraft` turns a placed draft into a device. Values that the draft leaves open get their
defaults: the access of a register is the one that all its fields share, or else unrestricted; a
field has the access of its register; all bits of a register have a defined reset value.

A draft with an open address, offset or reset value is not resolved and makes no device.
-/

namespace RegisterMap

/-- The value, which a resolved draft has. -/
def resolved {α : Type} : Option α → Except Error α
  | some a => .ok a
  | none => .error .unresolved

/-- Make a list of named items one after the other. A name that is taken is noticed as soon as its
item is made. -/
def makeNamed {α β : Type} (name : α → String) (make : α → Except Error β) (taken : List String) :
    List α → Except Error (List β)
  | [] => .ok []
  | a :: as => do
    let b ← make a
    if taken.contains (name a) then throw (.duplicateName (name a))
    return b :: (← makeNamed name make (name a :: taken) as)

/-- The access of a register that gives none: the one that all its fields give, or else reading and
writing. -/
def sharedAccess (fields : List Draft.Field) : Access :=
  match fields.map (·.access) with
  | some a :: as => if as.all (· == some a) then a else .readWrite
  | _ => .readWrite

/-- The access of a register. -/
def registerAccess (r : Draft.Register) : Access :=
  r.effective.access.getD (sharedAccess r.fieldList)

/-- The field of a register at a path. -/
def Field.ofDraft (path : NodePath) (access : Access) (f : Draft.Field) : Except Error Field := do
  let bitRange ← resolved f.bitRange
  let enums ← NameMap.ofList f.enums
  return {
    name := f.name, path := path.child f.name, bitRange, access := f.access.getD access
    description := f.description, enums }

/-- The register at a path. -/
def Register.ofDraft (path : NodePath) (r : Draft.Register) : Except Error Register := do
  let offset ← resolved r.offset
  let props := r.effective
  let size ← r.size path
  let access := registerAccess r
  let resetValue ← resolved props.resetValue
  let address ← resolved r.address
  let fields ← makeNamed Draft.Field.name (Field.ofDraft path access) [] r.fieldList
  return {
    name := r.name, path, offset, address, size, access, resetValue
    resetMask := props.resetMask.getD (Int.ofNat (lowBits size.toNat))
    protection := props.protection
    description := r.description, alternate := r.alternate, alternates := r.alternates, fields }

/-- The cluster at a path, apart from its members. -/
def Cluster.ofDraft (path : NodePath) (c : Draft.Cluster) : Except Error Cluster := do
  let offset ← resolved c.offset
  let address ← resolved c.address
  return {
    name := c.name, path, offset, address, size := c.size, description := c.description
    alternate := c.alternate, alternates := c.alternates }

/-- The names of members are distinct. -/
def checkNames (ms : List Member) : Except Error Unit :=
  match NameMap.firstRepeated? [] (ms.map Member.name) with
  | some name => .error (.duplicateName name)
  | none => .ok ()

mutual

/-- The member at a path. -/
def Member.ofDraft (path : NodePath) : Draft.Member → Except Error Member
  | .register r => do return .register (← Register.ofDraft path r)
  | .cluster c ms => do
    let c ← Cluster.ofDraft path c
    let members ← Member.ofDraftAll path ms
    checkNames members
    return .cluster c members

/-- The members of the element at a path. -/
def Member.ofDraftAll (path : NodePath) : List Draft.Member → Except Error (List Member)
  | [] => .ok []
  | m :: ms => do
    let m ← Member.ofDraft (path.child m.name) m
    return m :: (← Member.ofDraftAll path ms)

end

/-- The peripheral at a path. -/
def Peripheral.ofDraft (path : NodePath) (p : Draft.Peripheral) : Except Error Peripheral := do
  let address ← resolved p.address
  let members ← Member.ofDraftAll path p.memberList
  checkNames members
  return {
    name := p.name, path, address, description := p.description, groupName := p.groupName
    version := p.version, alternate := p.alternate, alternates := p.alternates
    addressBlocks := p.addressBlocks.getD [], interrupts := p.interrupts
    properties := p.effective, members }

/-- What a further definition of an interrupt is worth noting, given the first one. -/
def Interrupt.repetition (first later : Interrupt) : Event :=
  if first.value = later.value then .sharedInterrupt later.name first.peripheral later.peripheral
  else .conflictingInterrupt later.name later.peripheral later.value first.peripheral first.value

/-- The first definition of each interrupt, continuing those that are known. Every further
definition is noted. -/
def collectInterrupts (known : List Interrupt) : List Interrupt → Logged (List Interrupt)
  | [] => pure known
  | i :: is =>
    match known.find? (·.name == i.name) with
    | none => collectInterrupts (known ++ [i]) is
    | some first => do
      Logged.note (first.repetition i)
      collectInterrupts known is

/-- The device of a placed draft. -/
def Device.ofDraft (d : Draft.Device) : Logged Device := do
  let peripherals ← Logged.ofExcept <|
    makeNamed (·.name) (fun p : Draft.Peripheral => Peripheral.ofDraft (d.path.child p.name) p) []
      d.peripherals
  let interrupts ← collectInterrupts [] (peripherals.flatMap (·.interrupts))
  return {
    name := d.name, version := d.version, vendor := d.vendor, description := d.description
    addressUnitBits := d.addressUnitBits, width := d.width, properties := d.props, peripherals
    interrupts }

end RegisterMap
