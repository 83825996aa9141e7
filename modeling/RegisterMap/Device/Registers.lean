import RegisterMap.Device.Basic

/-!
# The registers of a device

All registers below an element, at any depth, in the order of declaration. `registersOf` goes
through a worklist of members and replaces a cluster by its own members; `Member.registers` is the
same order by recursion on the tree.
-/

namespace RegisterMap

namespace Member

mutual

/-- The registers in a member, in the order of declaration. -/
def registers : Member → List Register
  | .register r => [r]
  | .cluster _ ms => registersAll ms

/-- The registers in several members, in the order of declaration. -/
def registersAll : List Member → List Register
  | [] => []
  | m :: ms => registers m ++ registersAll ms

end

mutual

/-- The number of registers and clusters in a member, itself included. -/
def count : Member → Nat
  | .register _ => 1
  | .cluster _ ms => 1 + countAll ms

/-- The number of registers and clusters in several members, themselves included. -/
def countAll : List Member → Nat
  | [] => 0
  | m :: ms => count m + countAll ms

end

theorem countAll_append (ms ns : List Member) :
    countAll (ms ++ ns) = countAll ms + countAll ns := by
  induction ms with
  | nil => simp [countAll]
  | cons m ms ih => simp only [List.cons_append, countAll, ih, Nat.add_assoc]

end Member

/-- The registers that are reached from a worklist of members. -/
def registersOf : List Member → List Register
  | [] => []
  | .register r :: work => r :: registersOf work
  | .cluster _ ms :: work => registersOf (ms ++ work)
termination_by work => Member.countAll work
decreasing_by
  · simp [Member.countAll, Member.count]
  · simp only [Member.countAll, Member.count, Member.countAll_append]
    omega

/-- The registers of the peripheral. -/
def Peripheral.registers (p : Peripheral) : List Register :=
  registersOf p.members

/-- The registers of the device, peripheral by peripheral. -/
def Device.registers (d : Device) : List Register :=
  d.peripherals.flatMap Peripheral.registers

end RegisterMap
