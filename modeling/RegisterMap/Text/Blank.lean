/-!
# Blank space

The characters that separate words are the white space of Unicode together with the four
information separators U+001C to U+001F. Every reader of names, numbers and descriptions trims or
splits its text at exactly these characters; zero-width characters and the byte order mark are
ordinary text.

Main definitions: `isBlank`, `trim`, and `normalize`, which joins the words of a text by one space.
-/

namespace RegisterMap.Text

/-- The character separates words. -/
def isBlank (c : Char) : Bool :=
  let n := c.toNat
  (0x09 ≤ n && n ≤ 0x0D) || (0x1C ≤ n && n ≤ 0x20) || n == 0x85 || n == 0xA0 || n == 0x1680 ||
    (0x2000 ≤ n && n ≤ 0x200A) || n == 0x2028 || n == 0x2029 || n == 0x202F || n == 0x205F ||
    n == 0x3000

/-- Drop the characters satisfying `p` from both ends. -/
def trimChars (p : Char → Bool) (cs : List Char) : List Char :=
  ((cs.dropWhile p).reverse.dropWhile p).reverse

/-- The text without blank space at its ends. -/
def trim (s : String) : String :=
  String.ofList (trimChars isBlank s.toList)

/-- The maximal runs of characters that are not blank. -/
def words (cs : List Char) : List (List Char) :=
  (cs.splitOnP isBlank).filter (!·.isEmpty)

/-- The words of the text, joined by single spaces. -/
def normalize (s : String) : String :=
  String.intercalate " " ((words s.toList).map String.ofList)

/-- The pieces of the text between the occurrences of a separator. A text without the separator is
one piece, so there is always at least one. -/
def pieces (separator : Char) (s : String) : List String :=
  (s.toList.splitOnP (· == separator)).map String.ofList

theorem isBlank_of_isWhitespace {c : Char} (h : c.isWhitespace) : isBlank c := by
  simp only [Char.isWhitespace, Bool.or_eq_true, decide_eq_true_eq] at h
  rcases h with ((rfl | rfl) | rfl) | rfl <;> decide

@[simp] theorem trimChars_nil (p : Char → Bool) : trimChars p [] = [] := rfl

end RegisterMap.Text
