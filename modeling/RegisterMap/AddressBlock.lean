import RegisterMap.AddressRange
import RegisterMap.Properties

/-!
# Address blocks

The addresses that a peripheral claims, relative to its base address.
-/

namespace RegisterMap

/-- A range of addresses that belongs to a peripheral. -/
structure AddressBlock where
  offset : Int
  size : Int
  usage : Usage := .registers
  protection : Option Protection := none
deriving DecidableEq, Repr

/-- The addresses of the block in a peripheral at `base`. -/
def AddressBlock.range (b : AddressBlock) (base : Int) : AddressRange :=
  { start := base + b.offset, stop := base + b.offset + b.size }

end RegisterMap
