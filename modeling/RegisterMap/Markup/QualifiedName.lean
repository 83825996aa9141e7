import RegisterMap.Markup.Character
import RegisterMap.Markup.Remark

/-!
# Names with prefixes

A name consists of an optional prefix and a main part, with a colon between them. A name with more
colons, or with one in the wrong place, is still read as far as it can be, which is a fault; its
main part keeps the colons that do not divide it.
-/

namespace RegisterMap.Markup

/-- A name that may have a prefix. -/
structure QualifiedName where
  space : Option (List Char)
  main : List Char
deriving DecidableEq, Repr

namespace QualifiedName

/-- Both parts are plain names. -/
def isProper (q : QualifiedName) : Bool :=
  !q.main.contains ':'

/-- Divide a run of name characters and colons at its first colon. -/
def ofChars? (cs : List Char) : Option QualifiedName :=
  match cs.span (· != ':') with
  | (_, []) => if isPlainName cs then some ⟨none, cs⟩ else none
  | ([], _) => some ⟨none, cs⟩
  | (front, _ :: rest) =>
    if !isPlainName front then none
    else
      match rest.span (· != ':') with
      | (middle, []) => if isPlainName middle then some ⟨some front, middle⟩ else some ⟨none, cs⟩
      | (middle, _ :: last) =>
        if !isPlainName middle then some ⟨none, cs⟩
        else if last.isEmpty || isName last then some ⟨some front, rest⟩
        else none

/-- Read a name; one that is not proper is a fault. -/
def read (cs : List Char) : Remarked QualifiedName := do
  let q ← ofChars? cs
  Remarked.remarkIf (!q.isProper) .fault
  return q

end QualifiedName

end RegisterMap.Markup
