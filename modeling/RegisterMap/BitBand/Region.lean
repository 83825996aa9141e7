import RegisterMap.Error

/-!
# Bit-band regions

In a bit-band region every bit of an addressable byte has a word of its own in an alias region. A
region is configured by three numbers: the base and the size of the addressable bytes, and the base
of their aliases. `Region.readAll` checks configured regions; an accepted region has aligned bases
and aliases inside of the 32-bit address space.
-/

namespace RegisterMap.BitBand

/-- The number of alias bytes for one addressable byte. -/
def aliasBytesPerByte : Int := 32

/-- The number of alias bytes for one bit. -/
def aliasBytesPerBit : Int := 4

/-- The end of the address space. -/
def addressSpaceEnd : Int := 0x100000000

/-- A range of addressable bytes, and where its aliases are. -/
structure Region where
  addressableBase : Int
  addressableSize : Int
  aliasBase : Int
deriving DecidableEq, Repr

namespace Region

/-- The addressable bytes of the region. -/
def range (r : Region) : AddressRange :=
  { start := r.addressableBase, stop := r.addressableBase + r.addressableSize }

/-- The address is in the addressable range. -/
def contains (r : Region) (address : Int) : Bool :=
  decide (address ∈ r.range)

/-- The alias address of a bit, counted from the bit zero of the byte at an address. -/
def aliasAddress (r : Region) (address bit : Int) : Int :=
  r.aliasBase + (address - r.addressableBase) * aliasBytesPerByte + bit * aliasBytesPerBit

/-- The address after the last alias. -/
def aliasEnd (r : Region) : Int :=
  r.aliasBase + r.addressableSize * aliasBytesPerByte

end Region

/-- A region with the values by which it was configured. -/
structure ConfiguredRegion extends Region where
  setting : RegionSetting
deriving Repr

/-- A configured value as a number. -/
def number (s : Setting) : Except Error Int :=
  match s.number? with
  | some n => .ok n
  | none => .error .notNumber

/-- The three values of an entry. -/
def settingOf (entry : Setting) : Except Error RegionSetting :=
  match entry.items? with
  | some [addressableBase, addressableSize, aliasBase] =>
    .ok { addressableBase, addressableSize, aliasBase }
  | _ => .error (.region (.notTriple entry))

/-- The region of three values. The values are looked at one after the other: a value that is not a
number is noticed only if those before it give no reason to reject the region. -/
def regionOf (setting : RegionSetting) : Except Error ConfiguredRegion := do
  let addressableSize ← number setting.addressableSize
  if addressableSize ≤ 0 then throw (.region (.empty setting))
  let addressableBase ← number setting.addressableBase
  if addressableBase < 0 then throw (.region (.negativeBase setting))
  let aliasBase ← number setting.aliasBase
  if aliasBase < 0 then throw (.region (.negativeBase setting))
  if addressableBase % aliasBytesPerBit ≠ 0 then throw (.region (.unalignedBase setting))
  if aliasBase % aliasBytesPerBit ≠ 0 then throw (.region (.unalignedAlias setting))
  let region : Region := { addressableBase, addressableSize, aliasBase }
  if region.aliasEnd > addressSpaceEnd then
    throw (.region (.aliasOutside setting region.aliasEnd))
  return { region with setting }

/-- The regions of a configuration. Every entry has to consist of three values before the values of
any entry are looked at. -/
def regionsOf (entries : List Setting) : Except Error (List ConfiguredRegion) := do
  let settings ← entries.mapM settingOf
  settings.mapM regionOf

end RegisterMap.BitBand
