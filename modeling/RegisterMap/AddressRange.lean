import RegisterMap.Text.Hexadecimal

/-!
# Address ranges

A half-open interval of byte addresses. Ranges whose end is not above their start are empty.
-/

namespace RegisterMap

/-- The addresses from `start` up to but without `stop`. -/
structure AddressRange where
  start : Int
  stop : Int
deriving DecidableEq, Repr

namespace AddressRange

/-- The range holds no address. -/
def isEmpty (r : AddressRange) : Bool :=
  r.stop ≤ r.start

/-- The number of addresses in the range. -/
def length (r : AddressRange) : Nat :=
  (r.stop - r.start).toNat

/-- The greatest length that the overlap check can measure. -/
def maxLength : Nat := 0x7FFFFFFFFFFFFFFF

instance : Membership Int AddressRange := ⟨fun r a => r.start ≤ a ∧ a < r.stop⟩

instance (a : Int) (r : AddressRange) : Decidable (a ∈ r) :=
  inferInstanceAs (Decidable (r.start ≤ a ∧ a < r.stop))

/-- The two ranges share an address. -/
def Intersects (r s : AddressRange) : Prop :=
  ∃ a, a ∈ r ∧ a ∈ s

/-- The ranges in the order of their starts, and of their ends where the starts agree. -/
def before (r s : AddressRange) : Bool :=
  r.start < s.start || (r.start == s.start && r.stop ≤ s.stop)

instance : ToString AddressRange :=
  ⟨fun r => Text.address r.start ++ "-" ++ Text.address r.stop⟩

theorem mem_iff {a : Int} {r : AddressRange} : a ∈ r ↔ r.start ≤ a ∧ a < r.stop := Iff.rfl

theorem intersects_iff {r s : AddressRange} :
    r.Intersects s ↔ max r.start s.start < min r.stop s.stop := by
  simp only [Intersects, mem_iff]
  constructor
  · rintro ⟨a, h⟩
    omega
  · intro h
    exact ⟨max r.start s.start, by omega⟩

instance (r s : AddressRange) : Decidable (r.Intersects s) :=
  decidable_of_iff' _ intersects_iff

theorem before_iff {r s : AddressRange} :
    r.before s ↔ r.start < s.start ∨ r.start = s.start ∧ r.stop ≤ s.stop := by
  simp [before]

theorem before_trans {r s t : AddressRange} (h : r.before s) (h' : s.before t) : r.before t := by
  rw [before_iff] at *
  omega

theorem before_total (r s : AddressRange) : (r.before s || s.before r) = true := by
  rw [Bool.or_eq_true, before_iff, before_iff]
  omega

end AddressRange

end RegisterMap
