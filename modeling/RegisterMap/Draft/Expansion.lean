import RegisterMap.Draft.Basic
import RegisterMap.Log
import RegisterMap.NodePath.Read

/-!
# Expansion of arrays

An element with a dimension stands for several instances. Expansion puts the instances in the place
of the element: each gets its own name, and its address or bit position is moved by the step of the
dimension. What is inside of the element is repeated in every instance, and expanded there.

Siblings are expanded before anything inside of them, and after that the last sibling first; the
order can be seen only in which of several faults is reported.

Main definitions: the class `Dimensioned` says what may be repeated, `copies` with what result, and
`Device.expand` expands a whole device.
-/

namespace RegisterMap.Draft

/-- One instance of a dimensioned element: its index token, and how far it is moved. -/
structure Instance where
  token : String
  shift : Int
deriving DecidableEq, Repr

/-- The elements that may be repeated. -/
class Dimensioned (α : Type) where
  name : α → String
  dim : α → Option Dimension
  /-- One instance of the element. -/
  instantiate : α → Instance → α

/-- The header of one instance of an element. -/
def Header.instantiate (h : Header) (i : Instance) : Header :=
  { h with
    name := instanceName h.name i.token
    dim := none
    alternate := h.alternate.map (instanceName · i.token) }

instance : Dimensioned Field where
  name f := f.name
  dim f := f.dim
  instantiate f i :=
    { f with
      name := instanceName f.name i.token
      dim := none
      bitRange := f.bitRange.map (·.shift i.shift) }

instance : Dimensioned Member where
  name m := m.name
  dim m := m.header.dim
  instantiate
    | .register r, i =>
      .register { r with
        toHeader := r.toHeader.instantiate i
        offset := r.offset.map (· + i.shift) }
    | .cluster c ms, i =>
      .cluster { c with
        toHeader := c.toHeader.instantiate i
        offset := c.offset.map (· + i.shift) } ms

instance : Dimensioned Peripheral where
  name p := p.name
  dim p := p.dim
  instantiate p i :=
    let name := instanceName p.name i.token
    { p with
      toHeader := p.toHeader.instantiate i
      baseAddress := p.baseAddress.map (· + i.shift)
      arrayName := some p.name
      interrupts := p.interrupts.map ({ · with peripheral := name }) }

section

variable {α : Type} [Dimensioned α]

/-- The element itself, or one instance of it. -/
def place (a : α) : Option Instance → α
  | none => a
  | some i => Dimensioned.instantiate a i

/-- The instances of an element inside of the element at `parent`, or the element itself if it has
no dimension. -/
def copies (parent : NodePath) (a : α) : Except Error (List (Option Instance)) :=
  match Dimensioned.dim a with
  | none => .ok [none]
  | some dim => do
    let name := Dimensioned.name a
    let path := some (parent.child name)
    let tokens ← dim.tokens.mapError (.dimension path)
    if dim.length > 1 ∧ ¬ hasPlaceholder name.toList then
      throw (.dimension path (.noPlaceholder dim.length))
    tokens.zipIdx.mapM fun (token, i) => do
      let _ ← Error.liftMalformed (parent.enter (instanceName name token))
      return some { token, shift := i * dim.step }

/-- Add names to those that are taken, unless one of them is taken already. -/
def claimNames (parent : NodePath) (taken : List String) : List String → Except Error (List String)
  | [] => .ok taken
  | name :: names =>
    if taken.contains name then
      .error (.schema (some (parent.child name)) (.duplicateInstance name))
    else claimNames parent (name :: taken) names

/-- The instances of each of several siblings. No two instances have a name in common, and none has
a name that is taken. -/
def copiesAll (parent : NodePath) (taken : List String) :
    List α → Except Error (List (List (Option Instance)))
  | [] => .ok []
  | a :: as => do
    let is ← copies parent a
    let taken ← claimNames parent taken (is.map fun i => Dimensioned.name (place a i))
    let rest ← copiesAll parent taken as
    return is :: rest

/-- The number of elements in the place of the element. -/
def copyCount (a : α) : Nat :=
  ((Dimensioned.dim a).map (·.length.toNat)).getD 1

/-- One for an array, zero for any other element. -/
def ownArrayCount (a : α) : Nat :=
  if (Dimensioned.dim a).isSome then 1 else 0

end

/-- The fields of a register with the arrays among them expanded. -/
def expandFields (path : NodePath) (fs : List Field) : Except Error (List Field) := do
  let is ← copiesAll path [] fs
  return (fs.zip is).flatMap fun (f, is) => is.map (place f)

mutual

/-- The member at a path with the arrays inside of it expanded. -/
def Member.expandInside (path : NodePath) : Member → Except Error Member
  | .register r =>
    match r.fields with
    | none => .ok (.register r)
    | some fs => do return .register { r with fields := some (← expandFields path fs) }
  | .cluster c ms => do
    let is ← copiesAll path [] ms
    return .cluster c (← Member.expandInsideAll path is ms)

/-- The instances of members of the element at a path, with the arrays inside of them expanded. -/
def Member.expandInsideAll (path : NodePath) (instances : List (List (Option Instance))) :
    List Member → Except Error (List Member)
  | [] => .ok []
  | m :: ms => do
    let rest ← Member.expandInsideAll path instances.tail ms
    (instances.headD []).foldrM (fun i done => do
      let inside ← Member.expandInside (path.child (place m i).name) m
      return place inside i :: done) rest

end

/-- The members of the element at a path, with all arrays expanded. -/
def Member.expandAll (path : NodePath) (ms : List Member) : Except Error (List Member) := do
  let is ← copiesAll path [] ms
  Member.expandInsideAll path is ms

/-- The peripheral at a path with the arrays inside of it expanded. -/
def Peripheral.expandInside (path : NodePath) (p : Peripheral) : Except Error Peripheral :=
  match p.members with
  | none => .ok p
  | some ms => do return { p with members := some (← Member.expandAll path ms) }

mutual

/-- The number of arrays that are expanded inside of the member and in its place. -/
def Member.arrayCount : Member → Nat
  | .register r =>
    let fields := (r.fieldList.map ownArrayCount).foldr (· + ·) 0
    ownArrayCount (Member.register r) + copyCount (Member.register r) * fields
  | .cluster c ms =>
    ownArrayCount (Member.cluster c ms) +
      copyCount (Member.cluster c ms) * Member.arrayCountAll ms

/-- The number of arrays that are expanded among the members. -/
def Member.arrayCountAll : List Member → Nat
  | [] => 0
  | m :: ms => Member.arrayCount m + Member.arrayCountAll ms

end

/-- The number of arrays that are expanded in the device. An array inside of another one counts for
each instance of the latter. -/
def Device.arrayCount (d : Device) : Nat :=
  (d.peripherals.map fun p =>
    ownArrayCount p + copyCount p * Member.arrayCountAll p.memberList).foldr (· + ·) 0

/-- The device with all arrays expanded. -/
def Device.expand (d : Device) : Logged Device := do
  let is ← Logged.ofExcept (copiesAll d.path [] d.peripherals)
  let instances := (d.peripherals.zip is).flatMap fun (p, is) => is.map (place p)
  let peripherals ← Logged.ofExcept <|
    instances.foldrM (fun p done => do
      return (← p.expandInside (d.path.child p.name)) :: done) []
  Logged.note (.expanded d.arrayCount)
  return { d with peripherals }

end RegisterMap.Draft
