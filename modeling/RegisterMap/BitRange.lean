/-!
# Bit ranges

The bits of a register that a field occupies, given by the position of the lowest bit and a width.
-/

namespace RegisterMap

/-- `width` bits from bit `offset` on. -/
structure BitRange where
  offset : Int
  width : Int
deriving DecidableEq, Repr

/-- The number whose binary digits are one in the given number of lowest places and nowhere else. -/
def lowBits (count : Nat) : Nat :=
  Nat.pow 2 count - 1

namespace BitRange

/-- The range between two bits, both included. -/
def between (lsb msb : Int) : BitRange :=
  { offset := lsb, width := msb - lsb + 1 }

/-- The highest bit of the range. -/
def msb (r : BitRange) : Int :=
  r.offset + r.width - 1

/-- The number whose binary digits are one exactly in the range. A range that begins below bit zero
or has a negative width has none. -/
def mask? (r : BitRange) : Option Int :=
  if 0 ≤ r.offset ∧ 0 ≤ r.width then
    some (Int.ofNat (lowBits r.width.toNat <<< r.offset.toNat))
  else none

/-- The range moved upwards by a number of bits. -/
def shift (r : BitRange) (amount : Int) : BitRange :=
  { r with offset := r.offset + amount }

instance : ToString BitRange :=
  ⟨fun r => "BitRange(offset=" ++ toString r.offset ++ ", width=" ++ toString r.width ++ ")"⟩

@[simp] theorem msb_between (lsb msb : Int) : (between lsb msb).msb = msb := by
  simp only [between, BitRange.msb]
  omega

@[simp] theorem msb_shift (r : BitRange) (amount : Int) :
    (r.shift amount).msb = r.msb + amount := by
  simp only [shift, msb]
  omega

end BitRange

end RegisterMap
