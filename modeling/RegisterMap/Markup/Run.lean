import RegisterMap.Markup.Fragment

/-!
# Runs of character data

White space between two elements is layout; white space in a text belongs to the text. Which of them
it is cannot always be told, so it is decided piece by piece, by what follows a piece. A run of
character data is divided into pieces at its references. It is further divided at line ends that
consist of a carriage return and a line feed, as long as an ASCII character that is no carriage
return begins the next line; from the first other carriage return or the first character outside of
ASCII on, the rest of the run is divided into portions of a fixed length.
-/

namespace RegisterMap.Markup

/-- A part of a run of character data. -/
inductive Piece where
  /-- Characters, and whether they are layout if they are white space. -/
  | text (cs : List Char) (maybeLayout : Bool)
  | character (c : Char)
  | entity (name : List Char)
deriving DecidableEq, Repr

namespace Piece

/-- Characters as a piece; none at all are no piece. -/
def ofChars (cs : List Char) (maybeLayout : Bool) : List Piece :=
  if cs.isEmpty then [] else [.text cs maybeLayout]

/-- The character lets the division into lines go on behind it. -/
def continuesLines (c : Char) : Bool :=
  c == '\t' || c == '\n' || (' ' ≤ c && c.toNat < 0x80)

/-- The least length in UTF-8 of a portion that another one follows. -/
def portionSize : Nat := 300

/-- The portions of characters without references, given the reversed portion so far and its length.
White space in a portion may be layout if the next one begins with a carriage return, and in the last
one if the flag says so. -/
def portionsFrom (maybeLayout : Bool) : List Char → Nat → List Char → List Piece
  | acc, _, [] => ofChars acc.reverse maybeLayout
  | acc, size, '\r' :: cs =>
    let ended := if cs.head? = some '\n' then [] else ['\n']
    if size < portionSize then
      portionsFrom maybeLayout (ended ++ acc) (size + ended.length) cs
    else
      .text acc.reverse true :: portionsFrom maybeLayout ended ended.length cs
  | acc, size, c :: cs =>
    if size < portionSize then portionsFrom maybeLayout (c :: acc) (size + c.utf8Size) cs
    else .text acc.reverse false :: portionsFrom maybeLayout [c] c.utf8Size cs

/-- The pieces of characters without references, given the reversed piece so far. The flag says
whether white space at their end may be layout. -/
def linesFrom (maybeLayout : Bool) : List Char → List Char → List Piece
  | acc, '\r' :: '\n' :: c :: cs =>
    if continuesLines c then
      ofChars acc.reverse true ++ linesFrom maybeLayout ['\n'] (c :: cs)
    else
      ofChars acc.reverse true ++ portionsFrom maybeLayout ['\n'] 1 (c :: cs)
  | acc, '\r' :: cs =>
    ofChars acc.reverse true ++ portionsFrom maybeLayout [] 0 ('\r' :: cs)
  | acc, c :: cs =>
    if continuesLines c then linesFrom maybeLayout (c :: acc) cs
    else ofChars acc.reverse false ++ portionsFrom maybeLayout [] 0 (c :: cs)
  | acc, [] => ofChars acc.reverse maybeLayout

/-- The pieces of fragments. The flag says whether white space at their end may be layout; before a
reference it may not. -/
def ofFragments (maybeLayout : Bool) : List Fragment → List Piece
  | [] => []
  | [.text cs] => linesFrom maybeLayout [] cs
  | .text cs :: fragments => linesFrom false [] cs ++ ofFragments maybeLayout fragments
  | .character c :: fragments => .character c :: ofFragments maybeLayout fragments
  | .entity name :: fragments => .entity name :: ofFragments maybeLayout fragments

/-- The text includes the end mark of literal character data, which may not stand anywhere else. -/
def hasEndMark : List Char → Bool
  | ']' :: ']' :: '>' :: _ => true
  | _ :: cs => hasEndMark cs
  | [] => false

/-- The pieces of a run. The flag says whether white space at its end may be layout. -/
def divide? (maybeLayout : Bool) (run : List Char) : Option (List Piece) :=
  if hasEndMark run then none else (Fragment.divide? run).map (ofFragments maybeLayout)

end Piece

end RegisterMap.Markup
