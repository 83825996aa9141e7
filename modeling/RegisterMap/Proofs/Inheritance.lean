import RegisterMap.Properties

/-!
# The first value given

When open attributes are taken over along a chain, each attribute comes to be the first value that
is given for it on the chain.
-/

namespace RegisterMap

theorem findSome?_cons_eq_or {α β : Type} (f : α → Option β) (a : α) (as : List α) :
    (a :: as).findSome? f = (f a).or (as.findSome? f) := by
  rw [List.findSome?_cons]
  cases f a <;> rfl

/-- If each item takes over from its bases what it leaves open, an item comes to have the first
value given by it or one of its bases. -/
theorem eq_findSome?_of_takeOver {α β : Type} {along : α → List α → α} {get : α → Option β}
    (alone : ∀ a, along a [] = a)
    (takeOver : ∀ a base bases,
      get (along a (base :: bases)) = (get a).or (get (along base bases)))
    (a : α) (bases : List α) : get (along a bases) = (a :: bases).findSome? get := by
  induction bases generalizing a with
  | nil => rw [alone, findSome?_cons_eq_or, List.findSome?_nil, Option.or_none]
  | cons base bases ih => rw [takeOver, ih, findSome?_cons_eq_or _ a]

namespace RegisterProperties

/-- For each property the first value that is given for it. -/
def firstGiven (ps : List RegisterProperties) : RegisterProperties where
  size := ps.findSome? (·.size)
  access := ps.findSome? (·.access)
  protection := ps.findSome? (·.protection)
  resetValue := ps.findSome? (·.resetValue)
  resetMask := ps.findSome? (·.resetMask)

theorem firstGiven_singleton (p : RegisterProperties) : firstGiven [p] = p := by
  simp [firstGiven, findSome?_cons_eq_or]

theorem firstGiven_append (ps qs : List RegisterProperties) :
    firstGiven (ps ++ qs) = (firstGiven ps).inherit (firstGiven qs) := by
  simp [firstGiven, inherit, List.findSome?_append]

theorem firstGiven_cons (p : RegisterProperties) (ps : List RegisterProperties) :
    firstGiven (p :: ps) = p.inherit (firstGiven ps) := by
  simp [firstGiven, inherit, findSome?_cons_eq_or]

end RegisterProperties

end RegisterMap
