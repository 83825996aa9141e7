/-!
# Comparison without case

Names of access rights, usages and protections are compared by their case folding. All these names
are plain ASCII, so only the characters whose folding is ASCII can take part in a match: the ASCII
letters, the long s, the Kelvin sign, the two sharp s and the Latin ligatures. Every other character
is left alone; its folding has a character outside ASCII, so it matches no name either way.
-/

namespace RegisterMap.Text

/-- The case folding of a character where that is ASCII; otherwise the character itself. -/
def foldChar (c : Char) : List Char :=
  if 'A' ≤ c ∧ c ≤ 'Z' then [Char.ofNat (c.toNat + 32)]
  else match c.toNat with
    | 0xDF => ['s', 's']
    | 0x17F => ['s']
    | 0x1E9E => ['s', 's']
    | 0x212A => ['k']
    | 0xFB00 => ['f', 'f']
    | 0xFB01 => ['f', 'i']
    | 0xFB02 => ['f', 'l']
    | 0xFB03 => ['f', 'f', 'i']
    | 0xFB04 => ['f', 'f', 'l']
    | 0xFB05 => ['s', 't']
    | 0xFB06 => ['s', 't']
    | _ => [c]

/-- The text with the case of its characters removed. -/
def foldCase (s : String) : String :=
  String.ofList (s.toList.flatMap foldChar)

example : foldCase "Read-writeOnce" = "read-writeonce" := by decide

end RegisterMap.Text
