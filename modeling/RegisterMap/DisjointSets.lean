/-!
# Disjoint sets of names

A partition of names into sets, under two operations: find the set of a name, and unite the sets of
two names. Every name points to a parent in its set, and the name that points to itself represents
the set. Finding a name makes it and every name on its way to the representative point there
directly. Names are kept in the order in which they are first mentioned.

Main definitions: `DisjointSets.root`, `find`, `union`, `groups`.
-/

namespace RegisterMap

/-- A partition of names into sets. -/
structure DisjointSets where
  /-- Each name with its parent, in the order of first mention. -/
  parents : List (String × String) := []
deriving DecidableEq, Repr

namespace DisjointSets

instance : EmptyCollection DisjointSets := ⟨⟨[]⟩⟩

/-- The parent of a name. A name that is not mentioned is its own parent. -/
def parent (s : DisjointSets) (name : String) : String :=
  (s.parents.lookup name).getD name

/-- The names on the way from a name to the representative of its set, which comes last, if it takes
no more than the given number of steps. -/
def climb (s : DisjointSets) : Nat → String → List String
  | 0, name => [name]
  | steps + 1, name =>
    if s.parent name = name then [name] else name :: s.climb steps (s.parent name)

/-- The way from a name to the representative of its set. No way has more steps than there are
names. -/
def way (s : DisjointSets) (name : String) : List String :=
  s.climb s.parents.length name

/-- The representative of the set of a name. -/
def root (s : DisjointSets) (name : String) : String :=
  (s.way name).getLast?.getD name

/-- The partition with a name mentioned, as a set of its own if it is new. -/
def mention (s : DisjointSets) (name : String) : DisjointSets :=
  if (s.parents.lookup name).isSome then s else ⟨s.parents ++ [(name, name)]⟩

/-- Let a name point to another parent. -/
def point (s : DisjointSets) (name parent : String) : DisjointSets :=
  ⟨s.parents.map fun e => if e.1 = name then (name, parent) else e⟩

/-- The representative of the set of a name, and the partition with the way there shortened. -/
def find (s : DisjointSets) (name : String) : String × DisjointSets :=
  let s := s.mention name
  let root := s.root name
  (root, (s.way name).foldl (fun t passed => t.point passed root) s)

/-- The partition with the sets of two names united. The set of `a` gives the representative. -/
def union (s : DisjointSets) (a b : String) : DisjointSets :=
  let (rootA, s) := s.find a
  let (rootB, s) := s.find b
  if rootA = rootB then s else s.point rootB rootA

/-- Add a name to the group of a representative, which is a new group if there is none yet. -/
def addToGroup (root name : String) : List (String × List String) → List (String × List String)
  | [] => [(root, [name])]
  | g :: gs => if g.1 = root then (root, g.2 ++ [name]) :: gs else g :: addToGroup root name gs

/-- The sets, each with its representative, and the partition with all ways shortened. Sets and
their members are in the order of first mention. -/
def groups (s : DisjointSets) : List (String × List String) × DisjointSets :=
  (s.parents.map (·.1)).foldl
    (fun (gs, t) name => let (root, t) := t.find name; (addToGroup root name gs, t)) ([], s)

end DisjointSets

end RegisterMap
