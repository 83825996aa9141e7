import RegisterMap.Device.Description
import RegisterMap.Device.Registers
import RegisterMap.NodePath.Read

/-!
# Going through a device

The elements of a device of all kinds under one type, `Node`, with the operations for finding one
element from another: by name or position in the element around it, and by path from the device.

Main definitions: `Node.children?`, `Node.get`, and `Device.find`.
-/

namespace RegisterMap

/-- An element of a device, or the device itself. -/
inductive Node where
  | device (d : Device)
  | peripheral (p : Peripheral)
  | cluster (c : Cluster) (members : List Member)
  | register (r : Register)
  | field (f : Field)
deriving DecidableEq, Repr

/-- The member as an element of the device. -/
def Member.node : Member → Node
  | .register r => .register r
  | .cluster c ms => .cluster c ms

namespace Node

/-- What kind of element it is. -/
def kind : Node → String
  | .device _ => "Device"
  | .peripheral _ => "Peripheral"
  | .cluster .. => "Cluster"
  | .register _ => "Register"
  | .field _ => "Field"

/-- The path of the element; a device has none of its own. -/
def path? : Node → Option NodePath
  | .device _ => none
  | .peripheral p => some p.path
  | .cluster c _ => some c.path
  | .register r => some r.path
  | .field f => some f.path

/-- The short form in which the element is shown. -/
def describe : Node → String
  | .device d => d.describe
  | .peripheral p => p.describe
  | .cluster c ms => c.describe ms
  | .register r => r.describe
  | .field f => f.describe

/-- The elements directly inside of the element by name; nothing can be inside of a field. -/
def children? : Node → Option (NameMap Node)
  | .device d => some ⟨d.peripherals.map fun p => (p.name, .peripheral p)⟩
  | .peripheral p => some ⟨p.members.map fun m => (m.name, m.node)⟩
  | .cluster _ ms => some ⟨ms.map fun m => (m.name, m.node)⟩
  | .register r => some ⟨r.fields.map fun f => (f.name, .field f)⟩
  | .field _ => none

/-- The elements directly inside of the element, where there has to be a place for some. -/
def children (n : Node) : Except Error (NameMap Node) :=
  match n.children? with
  | some m => .ok m
  | none => .error .notContainer

/-- The element inside of the element that a key denotes. -/
def get (n : Node) (key : Key) : Except Error Node := do
  (← n.children).get key

/-- The element that several keys lead to, each inside of the element before it. -/
def descend (n : Node) (keys : List Key) : Except Error Node :=
  keys.foldlM get n

/-- The element that is reached by several names, each inside of the element before it. -/
def follow? (n : Node) : List String → Option Node
  | [] => some n
  | name :: names =>
    match n.children?.bind (·.get? name) with
    | some child => child.follow? names
    | none => none

/-- A property that not every kind of element has. -/
def property {α : Type} : Option α → Except Error α
  | some a => .ok a
  | none => .error .noProperty

/-- The item in the element that a key denotes, or nothing if no item has the name. -/
def lookup (n : Node) (key : Key) : Except Error (Option Node) := do
  (← property n.children?).find key

/-- The key denotes an item in the element. -/
def contains (n : Node) (key : Key) : Except Error Bool := do
  return (← (← n.children).find key).isSome

/-- All registers inside of the element. -/
def registers : Node → Except Error (List Register)
  | .device d => .ok d.registers
  | .peripheral p => .ok p.registers
  | .cluster _ ms => .ok (registersOf ms)
  | .register _ | .field _ => .error .noProperty

/-- The addresses of a cluster or register. -/
def range : Node → Except Error AddressRange
  | .cluster c _ => .ok c.range
  | .register r => .ok r.range
  | .device _ | .peripheral _ | .field _ => .error .noProperty

/-- The address ranges of a peripheral. -/
def ranges : Node → Except Error (List AddressRange)
  | .peripheral p => .ok p.ranges
  | .device _ | .cluster .. | .register _ | .field _ => .error .noProperty

/-- The access to a register or field. -/
def access : Node → Except Error Access
  | .register r => .ok r.access
  | .field f => .ok f.access
  | .device _ | .peripheral _ | .cluster .. => .error .noProperty

/-- The value of a field that a key denotes. -/
def enum : Node → Key → Except Error Int
  | .field f, key => f.enums.get key
  | .device _, _ | .peripheral _, _ | .cluster .., _ | .register _, _ => .error .noProperty

/-- The alias address of one bit of a register, counted from the back if it is negative. -/
def aliasAddress : Node → Int → Except Error Int
  | .register r, bit =>
    match r.bitBand with
    | none => .error (.notAliased r.describe)
    | some addresses =>
      match Position.item? addresses bit with
      | some a => .ok a
      | none => .error .outOfRange
  | .device _, _ | .peripheral _, _ | .cluster .., _ | .field _, _ => .error .noProperty

end Node

namespace Device

/-- The element that is reached from the device by one or more names. The text stands for them in
the error. -/
def findNamed (d : Device) (text : String) (names : List String) : Except Error Node :=
  if names.isEmpty then .error (.unknownName text)
  else
    match (Node.device d).follow? names with
    | some n => .ok n
    | none => .error (.unknownName text)

/-- The element at a path, which may start with the name of the device. -/
def find (d : Device) (path : NodePath) : Except Error Node :=
  let names := if path.parts.head? = some d.name then path.parts.tail else path.parts
  d.findNamed (toString path) names

/-- The element that a dotted reference denotes, starting with the name of a peripheral. -/
def findReference (d : Device) (reference : String) : Except Error Node := do
  let path ← Error.liftMalformed (NodePath.ofReference reference)
  d.findNamed reference path.parts

end Device

end RegisterMap
