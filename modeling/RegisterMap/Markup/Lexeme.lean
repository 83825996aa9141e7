import RegisterMap.Markup.Character

/-!
# Lexemes of declarations

Inside a declaration a quotation mark begins a literal that ends at the next mark of the same kind.
Elsewhere the characters of names form words, white space separates, and every other character
stands for itself.
-/

namespace RegisterMap.Markup

/-- A smallest part of a declaration. -/
inductive Lexeme where
  /-- One character of white space. -/
  | space
  | word (cs : List Char)
  | literal (cs : List Char)
  | mark (c : Char)
deriving DecidableEq, Repr

/-- The character begins and ends literals. -/
def isQuote (c : Char) : Bool :=
  c == Char.ofNat 0x22 || c == Char.ofNat 0x27

namespace Lexeme

/-- A word as a lexeme; an empty one is none. -/
def ofWord (acc : List Char) : List Lexeme :=
  if acc.isEmpty then [] else [.word acc.reverse]

/-- Divide the rest of a declaration, given the mark that the literal being read began with, if any,
and the reversed literal or word so far. -/
def divideFrom : Option Char → List Char → List Char → Option (List Lexeme)
  | none, acc, [] => some (ofWord acc)
  | some _, _, [] => none
  | some q, acc, c :: cs =>
    if c = q then (divideFrom none [] cs).map (.literal acc.reverse :: ·)
    else divideFrom (some q) (c :: acc) cs
  | none, acc, c :: cs =>
    if isNamePart c || c == ':' then divideFrom none (c :: acc) cs
    else if isQuote c then (divideFrom (some c) [] cs).map (ofWord acc ++ ·)
    else
      (divideFrom none [] cs).map
        (ofWord acc ++ (if isSpace c then .space else .mark c) :: ·)

/-- The lexemes of a declaration; `none` if a literal does not end. -/
def divide? (cs : List Char) : Option (List Lexeme) :=
  divideFrom none [] cs

/-- Drop white space. -/
def skipSpaces : List Lexeme → List Lexeme
  | .space :: ls => skipSpaces ls
  | ls => ls

/-- Drop white space, of which there must be some. -/
def afterSpaces? : List Lexeme → Option (List Lexeme)
  | .space :: ls => some (skipSpaces ls)
  | _ => none

/-- A keyword in front, which white space follows. -/
def afterKeyword? (keyword : String) : List Lexeme → Option (List Lexeme)
  | .word cs :: ls => if String.ofList cs = keyword then afterSpaces? ls else none
  | _ => none

/-- A name in front. -/
def name? : List Lexeme → Option (List Char × List Lexeme)
  | .word cs :: ls => if isName cs then some (cs, ls) else none
  | _ => none

/-- A literal in front. -/
def literal? : List Lexeme → Option (List Char × List Lexeme)
  | .literal cs :: ls => some (cs, ls)
  | _ => none

/-- Nothing but white space. -/
def areSpaces (ls : List Lexeme) : Bool :=
  (skipSpaces ls).isEmpty

end Lexeme

end RegisterMap.Markup
