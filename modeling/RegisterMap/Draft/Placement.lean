import RegisterMap.Draft.Basic
import RegisterMap.Extent
import RegisterMap.Log

/-!
# Placement

Every element gets its absolute address: a peripheral its base address, a member the address of the
element around it plus its own offset. A cluster spans the addresses up to the end of its last
member, so clusters are measured from the inside out.

A device is placed only if every address, register size and reset value is known, all fields lie in
their registers, and no two siblings conflict. Among several faults the one reported first is found
by going through the device level by level: downwards for offsets, upwards for registers, and
downwards again for conflicts.
-/

namespace RegisterMap.Draft

/-- A member and its path. -/
abbrev Located := NodePath × Member

/-- Join lists of levels, level by level. -/
def joinLevels {α : Type} : List (List α) → List (List α) → List (List α)
  | [], ys => ys
  | xs, [] => xs
  | x :: xs, y :: ys => (x ++ y) :: joinLevels xs ys

mutual

/-- What is inside of a member at a path, level by level. -/
def Member.levels (path : NodePath) : Member → List (List Located)
  | .register _ => []
  | .cluster _ ms => Member.levelsAll path ms

/-- Members of the element at a path and what is inside of them, level by level. -/
def Member.levelsAll (path : NodePath) : List Member → List (List Located)
  | [] => []
  | m :: ms =>
    let path' := path.child m.name
    joinLevels ([(path', m)] :: Member.levels path' m) (Member.levelsAll path ms)

end

/-- The members of the device, level by level. -/
def Device.levels (d : Device) : List (List Located) :=
  d.peripherals.foldr
    (fun p => joinLevels (Member.levelsAll (d.path.child p.name) p.memberList)) []

/-- The width of a register in bits. -/
def Register.size (path : NodePath) (r : Register) : Except Error Int :=
  match r.effective.size with
  | none => .error (.schema (some path) .noSize)
  | some size => if size ≤ 0 then .error (.schema (some path) (.invalidSize size)) else .ok size

/-- The number of bytes that hold a number of bits. -/
def byteCount (bits : Int) : Int :=
  (bits + 7) / 8

/-- The register at a path has a size and a reset value, and all its fields lie in it. -/
def Register.check (path : NodePath) (r : Register) : Except Error Unit := do
  let size ← r.size path
  if r.effective.resetValue.isNone then throw (.schema (some path) .noResetValue)
  r.fieldList.forM fun f =>
    match f.bitRange with
    | none => .error .unresolved
    | some range =>
      if range.msb < size then .ok ()
      else .error (.schema (some (path.child f.name)) (.fieldOutside range size))

/-- Every peripheral has a base address. -/
def Device.checkBaseAddresses (d : Device) : Except Error Unit :=
  d.peripherals.forM fun p =>
    if p.baseAddress.isSome then .ok ()
    else .error (.schema (some (d.path.child p.name)) .unresolvedBaseAddress)

/-- Every member of the device has an offset. -/
def Device.checkOffsets (d : Device) : Except Error Unit :=
  d.levels.flatten.forM fun (path, m) =>
    if m.offset.isSome then .ok () else .error (.schema (some path) .unresolvedOffset)

/-- Every register of the device is usable. -/
def Device.checkRegisters (d : Device) : Except Error Unit :=
  d.levels.flatten.reverse.forM fun
    | (path, .register r) => r.check path
    | (_, .cluster ..) => .ok ()

namespace Member

/-- The address of a placed member. -/
def start (m : Member) : Int :=
  m.header.address.getD 0

/-- The address after the last byte of a placed member. -/
def stop (m : Member) : Int :=
  m.start +
    match m with
    | .register r => byteCount (r.effective.size.getD 0)
    | .cluster c _ => c.size

/-- The addresses of a placed member. -/
def range (m : Member) : AddressRange :=
  { start := m.start, stop := m.stop }

/-- The greatest end of placed members, or an address if there are none. -/
def lastStop (address : Int) (ms : List Member) : Int :=
  (ms.map stop).max?.getD address

mutual

/-- Place a member whose offset counts from `base`. An offset that is not known counts as zero. -/
def placeAt (base : Int) : Member → Member
  | .register r => .register { r with address := some (base + r.offset.getD 0) }
  | .cluster c ms =>
    let address := base + c.offset.getD 0
    let ms := placeAllAt address ms
    .cluster { c with address := some address, size := lastStop address ms - address } ms

/-- Place members whose offsets count from `base`. -/
def placeAllAt (base : Int) : List Member → List Member
  | [] => []
  | m :: ms => placeAt base m :: placeAllAt base ms

end

theorem placeAllAt_eq_map (base : Int) (ms : List Member) :
    placeAllAt base ms = ms.map (placeAt base) := by
  induction ms with
  | nil => rfl
  | cons m ms ih => simp [placeAllAt, ih]

end Member

/-- Place a peripheral with everything in it. -/
def Peripheral.placeAll (p : Peripheral) : Peripheral :=
  let address := p.baseAddress.getD 0
  { p with
    address := some address
    members := p.members.map (Member.placeAllAt address) }

/-- Place all peripherals of the device. -/
def Device.placeAll (d : Device) : Device :=
  { d with peripherals := d.peripherals.map Peripheral.placeAll }

/-- The ranges of a placed peripheral: its address blocks or else the span of its members. -/
def Peripheral.ranges (p : Peripheral) : List AddressRange :=
  match p.addressBlocks.getD [], (p.memberList.map Member.start).min?,
    (p.memberList.map Member.stop).max? with
  | [], some start, some stop => [{ start, stop }]
  | blocks, _, _ => blocks.map (·.range (p.address.getD 0))

/-- The extents of placed peripherals of the device at a path. -/
def peripheralExtents (path : NodePath) (ps : List Peripheral) : List Extent :=
  ps.zipIdx.flatMap fun (p, owner) =>
    p.ranges.map fun range =>
      { owner, name := p.name, path := path.child p.name, alternates := p.alternates, range }

/-- The extents of placed members of the element at a path. -/
def memberExtents (path : NodePath) (ms : List Member) : List Extent :=
  ms.zipIdx.map fun (m, owner) =>
    { owner, name := m.name, path := path.child m.name, alternates := m.header.alternates
      range := m.range }

/-- The groups of siblings of a placed device, level by level. -/
def Device.extentGroups (d : Device) : List (List Extent) :=
  peripheralExtents d.path d.peripherals ::
    (d.peripherals.map fun p => memberExtents (d.path.child p.name) p.memberList) ++
    d.levels.flatten.filterMap fun
      | (_, .register _) => none
      | (path, .cluster _ ms) => some (memberExtents path ms)

/-- No two of the siblings conflict. If conflicts are to be tolerated, each of them is noted. -/
def checkExtents (tolerant : Bool) (extents : List Extent) : Logged Unit :=
  if extents.any Extent.isTooLong then throw .rangeTooLong
  else
    let conflicts := Extent.conflictsAmong extents
    if tolerant then Logged.noteAll (conflicts.map .overlap)
    else
      match conflicts with
      | [] => pure ()
      | o :: _ => throw (.overlap o)

/-- Check each of several groups of siblings in order. -/
def checkGroups (tolerant : Bool) : List (List Extent) → Logged Unit
  | [] => pure ()
  | es :: groups => do
    checkExtents tolerant es
    checkGroups tolerant groups

/-- The device with all addresses. If conflicts are to be tolerated, they are noted as warnings. -/
def Device.resolveAddresses (tolerant : Bool) (d : Device) : Logged Device := do
  Logged.ofExcept d.checkBaseAddresses
  Logged.ofExcept d.checkOffsets
  Logged.ofExcept d.checkRegisters
  let placed := d.placeAll
  checkGroups tolerant placed.extentGroups
  Logged.note (.placed (d.peripherals.length + d.levels.flatten.length))
  return placed

end RegisterMap.Draft
