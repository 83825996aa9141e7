import RegisterMap.Device.Basic

/-!
# Descriptions of elements

The short form in which an element of a device is shown: its name or path, the number of items in
it, its address, further properties, and what kind of element it is, for example
`[DEV/P0/CTRL @ 0x40000000 {Register}]`.
-/

namespace RegisterMap

/-- What is shown of an element. -/
structure Description where
  kind : String
  name : String
  address : Option Int := none
  length : Option Int := none
  properties : List (String × String) := []
deriving DecidableEq, Repr

/-- The description as text. -/
def Description.render (d : Description) : String :=
  let length := (d.length.map fun n => "<" ++ toString n ++ ">").getD ""
  let address := (d.address.map fun a => " @ " ++ Text.paddedAddress a).getD ""
  let properties :=
    if d.properties.isEmpty then ""
    else " (" ++ String.intercalate ", " (d.properties.map fun p => p.1 ++ ": " ++ p.2) ++ ")"
  "[" ++ d.name ++ length ++ address ++ properties ++ " \x7b" ++ d.kind ++ "\x7d]"

/-- The description of a field shows its highest and lowest bit. -/
def Field.describe (f : Field) : String :=
  Description.render {
    kind := "Field", name := toString f.path
    properties := [("bits", toString f.bitRange.msb ++ ":" ++ toString f.bitRange.offset)] }

/-- The description of a register. -/
def Register.describe (r : Register) : String :=
  Description.render { kind := "Register", name := toString r.path, address := some r.address }

/-- The description of a cluster shows the number of its members. -/
def Cluster.describe (c : Cluster) (members : List Member) : String :=
  Description.render {
    kind := "Cluster", name := toString c.path, address := some c.address
    length := some members.length }

/-- The description of a peripheral. -/
def Peripheral.describe (p : Peripheral) : String :=
  Description.render { kind := "Peripheral", name := toString p.path, address := some p.address }

/-- The description of a device shows the number of its peripherals. -/
def Device.describe (d : Device) : String :=
  Description.render { kind := "Device", name := d.name, length := some d.peripherals.length }

end RegisterMap
