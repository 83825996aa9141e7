import RegisterMap.Draft.Basic
import RegisterMap.Log

/-!
# Exclusion

Peripherals can be removed from a device by name. Every instance of an array of peripherals is
removed under the declared name of the array, too. A name that fits no peripheral is noted.
-/

namespace RegisterMap.Draft

/-- The peripheral, or the array that it is an instance of, has one of the names. -/
def Peripheral.isNamedIn (names : List String) (p : Peripheral) : Bool :=
  names.contains p.name || p.arrayName.any names.contains

/-- The name fits a peripheral or an array of peripherals. -/
def Device.knows (d : Device) (name : String) : Bool :=
  d.peripherals.any (·.isNamedIn [name])

/-- The device without the peripherals of the given names. -/
def Device.exclude (d : Device) (names : List String) : Logged Device := do
  let unknown := (NameSet.ofList names).toList.filter (!d.knows ·)
  Logged.noteAll (unknown.map (.unknownExclusion · d.name))
  return { d with peripherals := d.peripherals.filter (!·.isNamedIn names) }

end RegisterMap.Draft
