import RegisterMap.DisjointSets
import RegisterMap.Draft.Scope
import RegisterMap.Log

/-!
# Alternates

An element may name a sibling of the same kind of which it is another view. Being another view of
each other is symmetric and transitive: all siblings that are connected by such references, followed
in either direction, are alternates of each other. `Device.resolveAlternates` gives every element
the set of its alternates.
-/

namespace RegisterMap.Draft

/-- An element among its siblings. -/
structure Sibling where
  kind : ElementKind
  header : Header
deriving DecidableEq, Repr

/-- The peripheral among the peripherals of the device. -/
def Peripheral.asSibling (p : Peripheral) : Sibling :=
  ⟨.peripheral, p.toHeader⟩

/-- The member among the members of its scope. -/
def Member.asSibling (m : Member) : Sibling :=
  ⟨m.kind, m.header⟩

/-- The last of several siblings with a name, and its index. -/
def lastSibling? (siblings : List Sibling) (name : String) : Option (Sibling × Nat) :=
  siblings.zipIdx.reverse.find? (·.1.header.name == name)

/-- The name of the sibling to which the element at the index `i` refers, unless that is the element
itself or it refers to none. -/
def alternateOf (path : NodePath) (siblings : List Sibling) (s : Sibling) (i : Nat) :
    Except Error (Option String) :=
  match s.header.alternate with
  | none => .ok none
  | some name =>
    match (lastSibling? siblings name).filter (·.1.kind = s.kind) with
    | some (_, j) => .ok (if j = i then none else some name)
    | none => .error (.missingReference (path.child s.header.name) name (.alternate s.kind))

/-- The pairs of names that are linked by a reference among the siblings inside of the element at a
path. -/
def links (path : NodePath) (siblings : List Sibling) : Except Error (List (String × String)) := do
  let found ← siblings.zipIdx.mapM fun (s, i) => do
    return (← alternateOf path siblings s i).map fun name => (s.header.name, name)
  return found.filterMap id

/-- The sets of names that are connected by links. -/
def linkedSets (links : List (String × String)) : List (List String) :=
  let sets := links.foldl (fun s l => s.union l.1 l.2) (∅ : DisjointSets)
  sets.groups.1.map (·.2)

/-- The element at the index `i` with the other members of its set as alternates. An element that is
in no set, or has a later namesake, stays as it is. -/
def linkSibling (siblings : List Sibling) (sets : List (List String)) (s : Sibling) (i : Nat) :
    Header :=
  let isLast := (lastSibling? siblings s.header.name).any (·.2 == i)
  match sets.find? (·.contains s.header.name) with
  | some names =>
    if isLast then
      { s.header with alternates := (NameSet.ofList names).erase s.header.name }
    else s.header
  | none => s.header

/-- The headers of the siblings inside of the element at a path, with their alternates. -/
def linkSiblings (path : NodePath) (siblings : List Sibling) : Except Error (List Header) := do
  let sets := linkedSets (← links path siblings)
  return siblings.zipIdx.map fun (s, i) => linkSibling siblings sets s i

mutual

/-- The member at a path with everything inside of it linked. -/
def Member.linkInside (path : NodePath) : Member → Except Error Member
  | .register r => .ok (.register r)
  | .cluster c ms => do
    let headers ← linkSiblings path (ms.map Member.asSibling)
    let ms ← Member.linkInsideAll path ms
    return .cluster c (headers.zipWith Member.withHeader ms)

/-- The members of the element at a path with everything inside of them linked. -/
def Member.linkInsideAll (path : NodePath) : List Member → Except Error (List Member)
  | [] => .ok []
  | m :: ms => do
    let rest ← Member.linkInsideAll path ms
    return (← Member.linkInside (path.child m.name) m) :: rest

end

/-- The members of the element at a path, with their alternates and everything inside of them
linked. -/
def Member.linkAll (path : NodePath) (ms : List Member) : Except Error (List Member) := do
  let headers ← linkSiblings path (ms.map Member.asSibling)
  return headers.zipWith Member.withHeader (← Member.linkInsideAll path ms)

/-- The peripheral at a path with everything inside of it linked. -/
def Peripheral.linkInside (path : NodePath) (p : Peripheral) : Except Error Peripheral :=
  match p.members with
  | none => .ok p
  | some ms => do return { p with members := some (← Member.linkAll path ms) }

/-- The number of elements of the device that refer to another element as their alternate. -/
def Device.linkCount (d : Device) : Nat :=
  let count (path : NodePath) (siblings : List Sibling) :=
    ((links path siblings).toOption.getD []).length
  count d.path (d.peripherals.map Peripheral.asSibling) +
    (d.scopes.map fun s => count s.path (s.members.map Member.asSibling)).foldr (· + ·) 0

/-- The device with all alternates linked. -/
def Device.resolveAlternates (d : Device) : Logged Device := do
  let headers ← Logged.ofExcept (linkSiblings d.path (d.peripherals.map Peripheral.asSibling))
  let peripherals ← Logged.ofExcept <|
    d.peripherals.foldrM (fun p done => do
      return (← p.linkInside (d.path.child p.name)) :: done) []
  Logged.note (.linked d.linkCount)
  return { d with
    peripherals := headers.zipWith (fun h p => { p with toHeader := h }) peripherals }

end RegisterMap.Draft
