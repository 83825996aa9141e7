import RegisterMap.Markup.Lexeme

/-!
# External identifiers

What stands at another place is named by the place, after `SYSTEM`, or by a public identifier and
the place, after `PUBLIC`. Where a format of data is named, the place may be left out.
-/

namespace RegisterMap.Markup

/-- The name of something at another place. -/
structure ExternalId where
  publicName : Option (List Char)
  place : Option (List Char)
deriving DecidableEq, Repr

/-- Read an external identifier, if there is one. -/
def ExternalId.read? (needsPlace : Bool) (ls : List Lexeme) :
    Option (Option ExternalId × List Lexeme) :=
  match ls with
  | .word cs :: rest =>
    match String.ofList cs with
    | "SYSTEM" => do
      let (place, rest) ← Lexeme.literal? (← Lexeme.afterSpaces? rest)
      return (some ⟨none, some place⟩, rest)
    | "PUBLIC" => do
      let (publicName, rest) ← Lexeme.literal? (← Lexeme.afterSpaces? rest)
      if !publicName.all isPublicIdChar then none
      match (Lexeme.afterSpaces? rest).bind Lexeme.literal? with
      | some (place, rest) => some (some ⟨some publicName, some place⟩, rest)
      | none => if needsPlace then none else some (some ⟨some publicName, none⟩, rest)
    | _ => some (none, ls)
  | _ => some (none, ls)

end RegisterMap.Markup
