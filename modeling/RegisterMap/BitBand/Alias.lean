import RegisterMap.BitBand.Region
import RegisterMap.Device.Registers
import RegisterMap.Log

/-!
# Bit-band aliases

A register whose address lies in a bit-band region gets the alias address of each of its bits, from
the first region that contains it; each field gets those of its own bits. Everything else in the
device stays as it is. A region that gave aliases to no register is noted.
-/

namespace RegisterMap

namespace BitBand

/-- The first region that contains an address. -/
def regionAt? (regions : List ConfiguredRegion) (address : Int) : Option ConfiguredRegion :=
  regions.find? (·.contains address)

/-- The alias addresses of the bits of a register. -/
def aliases (region : Region) (address size : Int) : List Int :=
  (List.range size.toNat).map fun bit => region.aliasAddress address (bit : Nat)

/-- The numbers of the bits in a range. -/
def bitsOf (r : BitRange) : List Int :=
  (List.range r.width.toNat).map fun i => r.offset + (i : Nat)

end BitBand

open BitBand

/-- The field with the aliases of its bits, out of those of the register. -/
def Field.withAliases (addresses : List Int) (f : Field) : Except Error Field :=
  match (bitsOf f.bitRange).mapM (Position.item? addresses) with
  | some own => .ok { f with bitBand := some own }
  | none => .error .outOfRange

/-- The register with the aliases of its bits, if it lies in a region. -/
def Register.withAliases (regions : List ConfiguredRegion) (r : Register) :
    Except Error Register :=
  match regionAt? regions r.address with
  | none => .ok r
  | some region => do
    let addresses := aliases region.toRegion r.address r.size
    let fields ← r.fields.mapM (Field.withAliases addresses)
    return { r with bitBand := some addresses, fields }

mutual

/-- The member with the aliases of all registers in it. -/
def Member.withAliases (regions : List ConfiguredRegion) : Member → Except Error Member
  | .register r => do return .register (← r.withAliases regions)
  | .cluster c ms => do return .cluster c (← Member.withAliasesAll regions ms)

/-- The members with the aliases of all registers in them. -/
def Member.withAliasesAll (regions : List ConfiguredRegion) :
    List Member → Except Error (List Member)
  | [] => .ok []
  | m :: ms => do
    let m ← Member.withAliases regions m
    return m :: (← Member.withAliasesAll regions ms)

end

/-- The peripheral with the aliases of all registers in it. -/
def Peripheral.withAliases (regions : List ConfiguredRegion) (p : Peripheral) :
    Except Error Peripheral := do
  return { p with members := ← Member.withAliasesAll regions p.members }

namespace BitBand

/-- The regions without those that repeat an earlier one. -/
def distinctRegions : List ConfiguredRegion → List ConfiguredRegion
  | [] => []
  | r :: rs => r :: (distinctRegions rs).filter (·.toRegion ≠ r.toRegion)

/-- The regions that give aliases to none of the registers. -/
def unusedRegions (regions : List ConfiguredRegion) (rs : List Register) :
    List ConfiguredRegion :=
  let used := rs.filterMap fun r => (regionAt? regions r.address).map (·.toRegion)
  (distinctRegions regions).filter fun r => ¬ used.contains r.toRegion

/-- The number of registers that get aliases. -/
def aliasedCount (regions : List ConfiguredRegion) (rs : List Register) : Nat :=
  rs.countP fun r => (regionAt? regions r.address).isSome

end BitBand

/-- The device with the aliases of all registers in the regions. -/
def Device.withAliases (regions : List ConfiguredRegion) (d : Device) : Logged Device := do
  let peripherals ← Logged.ofExcept (d.peripherals.mapM (Peripheral.withAliases regions))
  Logged.noteAll ((unusedRegions regions d.registers).map fun r =>
    .unusedRegion r.setting.describe)
  Logged.note (.aliased (aliasedCount regions d.registers))
  return { d with peripherals }

end RegisterMap
