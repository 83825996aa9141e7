/-!
# Interrupts

An interrupt line belongs to the peripheral that declares it; peripherals may share a line.
-/

namespace RegisterMap

/-- An interrupt line of a peripheral. -/
structure Interrupt where
  name : String
  value : Int
  description : Option String := none
  /-- The name of the peripheral that declares the interrupt. -/
  peripheral : String
deriving DecidableEq, Repr

end RegisterMap
