import RegisterMap.Text.Printable

/-!
# Quoted text

Messages show a text in quotation marks so that its ends and its invisible characters can be seen.
The mark is an apostrophe, or a double quotation mark when the text has an apostrophe and no double
mark. The mark itself and the backslash are escaped by a backslash; line feed, carriage return and
tab have short escapes; every other character that is not printable is written by its code point in
two, four or eight hexadecimal digits.
-/

namespace RegisterMap.Text

/-- `n` in lower-case hexadecimal digits, at least `width` of them. -/
def hexDigits (width n : Nat) : List Char :=
  let ds := Nat.toDigits 16 n
  List.replicate (width - ds.length) '0' ++ ds

/-- The apostrophe. -/
def apostrophe : Char := Char.ofNat 0x27

/-- The double quotation mark. -/
def doubleMark : Char := Char.ofNat 0x22

/-- The quotation mark around a text. -/
def markOf (cs : List Char) : Char :=
  if cs.contains apostrophe && !cs.contains doubleMark then doubleMark else apostrophe

/-- How one character is written between the marks. -/
def quoteChar (mark c : Char) : List Char :=
  if c = mark ∨ c = '\\' then ['\\', c]
  else if c = '\n' then ['\\', 'n']
  else if c = '\r' then ['\\', 'r']
  else if c = '\t' then ['\\', 't']
  else if isPrintable c then [c]
  else if c.toNat < 0x100 then '\\' :: 'x' :: hexDigits 2 c.toNat
  else if c.toNat < 0x10000 then '\\' :: 'u' :: hexDigits 4 c.toNat
  else '\\' :: 'U' :: hexDigits 8 c.toNat

/-- The text in quotation marks. -/
def quoted (s : String) : String :=
  let cs := s.toList
  let mark := markOf cs
  String.ofList (mark :: cs.flatMap (quoteChar mark) ++ [mark])

/-- The text in quotation marks, cut off behind the given number of characters, marks included. -/
def quotedUpTo (limit : Nat) (s : String) : String :=
  String.ofList ((quoted s).toList.take limit)

/-- Texts in quotation marks, separated by commas, in square brackets. -/
def quotedList (ss : List String) : String :=
  "[" ++ String.intercalate ", " (ss.map quoted) ++ "]"

/-- Items in parentheses, separated by commas; a comma follows a single item. -/
def tuple : List String → String
  | [item] => "(" ++ item ++ ",)"
  | items => "(" ++ String.intercalate ", " items ++ ")"

end RegisterMap.Text
