import RegisterMap.Draft.Basic

/-!
# Scopes

The members of a peripheral or of a cluster make up a scope: the place where references between
registers by plain name are looked up, and where alternates are linked. Every scope has a position,
the way to it from the device, by which members with equal names in different places are told
apart.

Scopes are listed from the outside in, and among the clusters of one scope the last one comes
first. The order can be seen only in which of several faults is reported.
-/

namespace RegisterMap.Draft

/-- The members of a peripheral or cluster, and where they are. -/
structure Scope where
  /-- The index of the peripheral, and of the cluster in each scope on the way. -/
  position : List Nat
  path : NodePath
  members : List Member
deriving Repr

mutual

/-- The scopes in a member at the given place. -/
def Member.scopes (position : List Nat) (path : NodePath) : Member → List Scope
  | .register _ => []
  | .cluster _ ms => ⟨position, path, ms⟩ :: Member.scopesAll position path 0 ms

/-- The scopes in the members of the scope at the given place, from the index `i` on. -/
def Member.scopesAll (position : List Nat) (path : NodePath) (i : Nat) : List Member → List Scope
  | [] => []
  | m :: ms =>
    Member.scopesAll position path (i + 1) ms ++
      Member.scopes (position ++ [i]) (path.child m.name) m

end

/-- The scope of the members of a peripheral. -/
def Peripheral.scope (parent : NodePath) (i : Nat) (p : Peripheral) : Scope :=
  ⟨[i], parent.child p.name, p.memberList⟩

/-- The scopes in a peripheral. -/
def Peripheral.scopes (parent : NodePath) (i : Nat) (p : Peripheral) : List Scope :=
  let s := p.scope parent i
  s :: Member.scopesAll s.position s.path 0 s.members

/-- The scopes in the device, peripheral by peripheral. -/
def Device.scopes (d : Device) : List Scope :=
  d.peripherals.zipIdx.flatMap fun (p, i) => p.scopes d.path i

/-- A register in a scope. -/
structure Site where
  scope : Scope
  index : Nat
  register : Register
deriving Repr

namespace Site

/-- The way to the register from the device. -/
def position (s : Site) : List Nat :=
  s.scope.position ++ [s.index]

/-- The path of the register. -/
def path (s : Site) : NodePath :=
  s.scope.path.child s.register.name

end Site

namespace Scope

/-- The registers directly in the scope. -/
def registers (s : Scope) : List Site :=
  s.members.zipIdx.filterMap fun
    | (.register r, i) => some ⟨s, i, r⟩
    | (.cluster _ _, _) => none

/-- The register that names lead to, each the name of a member of the cluster before it. -/
def find? (s : Scope) : List String → Option Site
  | [] => none
  | name :: names =>
    match s.members.zipIdx.find? (·.1.name == name) with
    | some (.register r, i) => if names.isEmpty then some ⟨s, i, r⟩ else none
    | some (.cluster c ms, i) => find? ⟨s.position ++ [i], s.path.child c.name, ms⟩ names
    | none => none

end Scope

/-- The registers of the device, scope by scope. -/
def Device.sites (d : Device) : List Site :=
  d.scopes.flatMap Scope.registers

/-- The register at which a path arrives that starts with the name of a peripheral. -/
def Device.find? (d : Device) (path : NodePath) : Option Site :=
  match path.parts with
  | [] => none
  | name :: names =>
    (d.peripherals.zipIdx.find? (·.1.name == name)).bind fun (p, i) =>
      (p.scope d.path i).find? names

mutual

/-- Replace each register in a member, depending on its position. -/
def Member.mapRegisters (f : List Nat → Register → Register) (position : List Nat) :
    Member → Member
  | .register r => .register (f position r)
  | .cluster c ms => .cluster c (Member.mapRegistersAll f position 0 ms)

/-- Replace each register in the members of a scope, from the index `i` on. -/
def Member.mapRegistersAll (f : List Nat → Register → Register) (position : List Nat) (i : Nat) :
    List Member → List Member
  | [] => []
  | m :: ms =>
    Member.mapRegisters f (position ++ [i]) m :: Member.mapRegistersAll f position (i + 1) ms

end

/-- Replace each register of the device, depending on its position. -/
def Device.mapRegisters (f : List Nat → Register → Register) (d : Device) : Device :=
  { d with
    peripherals := d.peripherals.mapIdx fun i p =>
      { p with members := p.members.map (Member.mapRegistersAll f [i] 0) } }

end RegisterMap.Draft
