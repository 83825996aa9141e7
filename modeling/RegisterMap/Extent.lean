import RegisterMap.Error
import RegisterMap.NameSet

/-!
# Extents

An extent is a range of addresses that one of several siblings occupies. Two siblings may occupy a
common address only if they are alternates of each other.

Conflicts are found by going through the extents in the order of their addresses while keeping those
that are still open at the start of the next one: `conflictsAmong` compares each extent with the
open ones only.
-/

namespace RegisterMap

/-- A range of addresses that a sibling occupies. One sibling may have several extents. -/
structure Extent where
  /-- The index of the sibling. -/
  owner : Nat
  name : String
  path : NodePath
  /-- The names of the siblings with which addresses may be shared. -/
  alternates : NameSet
  range : AddressRange
deriving DecidableEq, Repr

namespace Extent

/-- The extents may share addresses: they are of one sibling, or the second sibling is an alternate
of the first. -/
def admits (a b : Extent) : Bool :=
  a.owner == b.owner || decide (b.name ∈ a.alternates)

/-- The conflict of two extents that share an address. -/
def overlap (a b : Extent) : Overlap :=
  { first := a.path, firstRange := a.range, second := b.path, secondRange := b.range }

/-- The extents among `active` whose end is not reached at an address. -/
def stillOpen (active : List Extent) (address : Int) : List Extent :=
  active.filter fun a => address < a.range.stop

/-- The conflicts of extents in the order of their addresses, each with those before it and with
the ones that are already active. -/
def sweep (active : List Extent) : List Extent → List Overlap
  | [] => []
  | e :: es =>
    let opened := stillOpen active e.range.start
    (opened.filter (!·.admits e)).map (·.overlap e) ++ sweep (opened ++ [e]) es

/-- The extents that hold an address, in the order of their addresses. -/
def inOrder (extents : List Extent) : List Extent :=
  (extents.filter (!·.range.isEmpty)).mergeSort fun a b => a.range.before b.range

/-- The conflicts among extents. -/
def conflictsAmong (extents : List Extent) : List Overlap :=
  sweep [] (inOrder extents)

/-- An extent is too long to be measured. -/
def isTooLong (e : Extent) : Bool :=
  decide (AddressRange.maxLength < e.range.length)

end Extent

end RegisterMap
