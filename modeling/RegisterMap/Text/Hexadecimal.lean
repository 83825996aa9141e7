import RegisterMap.Text.Quoted

/-!
# Addresses in hexadecimal

Messages write an address after `0x`. In ranges a negative address has its sign in front of the
base; in descriptions of elements the digits are padded to eight places, of which a sign takes one.
-/

namespace RegisterMap.Text

/-- The address with its sign before the base: `0x40`, `-0x10`. -/
def address (a : Int) : String :=
  (if a < 0 then "-0x" else "0x") ++ String.ofList (hexDigits 1 a.natAbs)

/-- The address in at least eight places after the base: `0x00000040`, `0x-0000010`. -/
def paddedAddress (a : Int) : String :=
  "0x" ++ String.ofList (if a < 0 then '-' :: hexDigits 7 a.natAbs else hexDigits 8 a.natAbs)

example : address 64 = "0x40" ∧ address (-16) = "-0x10" := by decide +kernel

example : paddedAddress 64 = "0x00000040" ∧ paddedAddress (-1) = "0x-0000001" := by decide +kernel

end RegisterMap.Text
