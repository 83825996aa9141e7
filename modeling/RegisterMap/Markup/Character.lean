/-!
# Characters of a document

The classes of characters that the grammar of documents distinguishes: the characters that may occur
at all, the white space between the parts of a tag, and the characters of names. Unlike blank space
in texts, white space is ASCII only.
-/

namespace RegisterMap.Markup

/-- The code point lies in one of the ranges. -/
def inRanges (ranges : List (Nat × Nat)) (c : Char) : Bool :=
  ranges.any fun r => r.1 ≤ c.toNat && c.toNat ≤ r.2

/-- The character may occur in a document. -/
def isAllowed (c : Char) : Bool :=
  inRanges [(0x9, 0xA), (0xD, 0xD), (0x20, 0xD7FF), (0xE000, 0xFFFD), (0x10000, 0x10FFFF)] c

/-- White space in markup. -/
def isSpace (c : Char) : Bool :=
  c == ' ' || c == '\t' || c == '\n' || c == '\r'

/-- The character may begin a name without a prefix. -/
def isNameStart (c : Char) : Bool :=
  inRanges [(0x41, 0x5A), (0x5F, 0x5F), (0x61, 0x7A), (0xC0, 0xD6), (0xD8, 0xF6), (0xF8, 0x2FF),
    (0x370, 0x37D), (0x37F, 0x1FFF), (0x200C, 0x200D), (0x2070, 0x218F), (0x2C00, 0x2FEF),
    (0x3001, 0xD7FF), (0xF900, 0xFDCF), (0xFDF0, 0xFFFD), (0x10000, 0xEFFFF)] c

/-- The character may continue a name without a prefix. -/
def isNamePart (c : Char) : Bool :=
  isNameStart c || inRanges [(0x2D, 0x2E), (0x30, 0x39), (0xB7, 0xB7), (0x300, 0x36F),
    (0x203F, 0x2040)] c

/-- The characters form a name without a prefix. -/
def isPlainName : List Char → Bool
  | [] => false
  | c :: cs => isNameStart c && cs.all isNamePart

/-- The characters form a name, in which colons count as letters. -/
def isName : List Char → Bool
  | [] => false
  | c :: cs => (isNameStart c || c == ':') && cs.all fun c => isNamePart c || c == ':'

/-- The longest run of characters that may belong to a name, and the rest. -/
def takeName (cs : List Char) : List Char × List Char :=
  cs.span fun c => isNamePart c || c == ':'

/-- The character may occur in a public identifier. -/
def isPublicIdChar (c : Char) : Bool :=
  c.isAlphanum || c == ' ' || c == '\n' || c == '\r' ||
    inRanges [(0x21, 0x21), (0x23, 0x25), (0x27, 0x2F), (0x3A, 0x3B), (0x3D, 0x3D), (0x3F, 0x40),
      (0x5F, 0x5F)] c

/-- The text without leading white space. -/
def skipSpace (cs : List Char) : List Char :=
  cs.dropWhile isSpace

end RegisterMap.Markup
