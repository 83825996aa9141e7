import RegisterMap.Text.Blank
import RegisterMap.Text.DecimalDigit

/-!
# Numerals

A device description writes a number as a *scaled numeral*: after `0x` in hexadecimal, after `#` in
binary, after a leading `0` in octal, otherwise in decimal. What follows the scale mark is read by a
general reader of integers, which takes more than digits: blank space around the number, a sign, a
second mark of the same base, and single underscores between digits.

Main definitions: `magnitude?` reads digits, `integer?` a whole number in a known base, and
`scale` divides a scaled numeral into its base and the text that is read in that base.
-/

namespace RegisterMap.Text

/-- The character may surround a number: blank space, the four information separators excepted. -/
def padsNumber (c : Char) : Bool :=
  isBlank c && !(0x1C ≤ c.toNat && c.toNat ≤ 0x1F)

/-- Continue the number `n` by more digits, each optionally preceded by one underscore. -/
def continueNumber? (base n : Nat) : List Char → Option Nat
  | [] => some n
  | '_' :: c :: cs => (digitIn? base c).bind fun d => continueNumber? base (n * base + d) cs
  | c :: cs => (digitIn? base c).bind fun d => continueNumber? base (n * base + d) cs

/-- The number written by one or more digits with single underscores between them. -/
def magnitude? (base : Nat) : List Char → Option Nat
  | [] => none
  | c :: cs => (digitIn? base c).bind fun d => continueNumber? base d cs

/-- The letter that marks a base after a zero. -/
def baseLetter? : Nat → Option Char
  | 2 => some 'b'
  | 8 => some 'o'
  | 16 => some 'x'
  | _ => none

/-- The digits after an optional mark of the base: a zero, the letter of the base in either case,
and optionally one underscore. -/
def dropMark (base : Nat) : List Char → List Char
  | z :: l :: cs =>
    if decimal? z = some 0 ∧ baseLetter? base = some l.toLower then
      match cs with
      | '_' :: ds => ds
      | ds => ds
    else z :: l :: cs
  | cs => cs

/-- The whole number written in the given base. -/
def integer? (base : Nat) (cs : List Char) : Option Int :=
  match trimChars padsNumber cs with
  | '-' :: ds => (magnitude? base (dropMark base ds)).map fun n => -(n : Int)
  | '+' :: ds => (magnitude? base (dropMark base ds)).map Int.ofNat
  | ds => (magnitude? base (dropMark base ds)).map Int.ofNat

/-- A text to be read in a base. -/
structure Numeral where
  base : Nat
  digits : String
deriving DecidableEq, Repr

/-- Divide a scaled numeral without surrounding blank space into its base and the rest. -/
def scaleChars : List Char → Nat × List Char
  | '0' :: 'x' :: cs => (16, cs)
  | '0' :: 'X' :: cs => (16, cs)
  | '#' :: cs => (2, cs)
  | '0' :: c :: cs => (8, c :: cs)
  | cs => (10, cs)

/-- The base of a scaled numeral and the text that is read in it. -/
def scale (s : String) : Numeral :=
  let (base, cs) := scaleChars (trimChars isBlank s.toList)
  { base, digits := String.ofList cs }

/-- The number that the text denotes in its base. -/
def Numeral.value? (n : Numeral) : Option Int :=
  integer? n.base n.digits.toList

/-- The number that a scaled numeral denotes. -/
def scaled? (s : String) : Option Int :=
  (scale s).value?

example : scaled? " 0x1F " = some 31 ∧ scaled? "#101" = some 5 ∧ scaled? "017" = some 15 ∧
    scaled? "12" = some 12 ∧ scaled? "0" = some 0 := by decide +kernel

example : scaled? "0x-5" = some (-5) ∧ scaled? "#0b11" = some 3 ∧ scaled? "00o17" = some 15 ∧
    scaled? "08" = none ∧ scaled? "1__2" = none := by decide +kernel

end RegisterMap.Text
