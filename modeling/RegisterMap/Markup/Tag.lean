import RegisterMap.Markup.Character
import RegisterMap.Markup.Lexeme

/-!
# Tags

The form of a tag: a name, and in a start tag attributes with values in quotation marks. Names and
values are kept as they are written.
-/

namespace RegisterMap.Markup

/-- An attribute as it is written. -/
structure WrittenAttribute where
  name : List Char
  value : List Char
deriving DecidableEq, Repr

/-- A tag without its brackets. -/
inductive Tag where
  /-- A start tag, or a whole element without content when it is closed. -/
  | opening (name : List Char) (attributes : List WrittenAttribute) (closed : Bool)
  | closing (name : List Char)
deriving DecidableEq, Repr

/-- The attributes of a start tag, from behind its name, and whether the tag is closed. -/
def attributesFrom (cs : List Char) : Option (List WrittenAttribute × Bool) :=
  match skipSpace cs with
  | [] => some ([], false)
  | ['/'] => some ([], true)
  | rest =>
    if rest.length = cs.length then none
    else
      let (name, rest) := takeName rest
      match skipSpace rest with
      | '=' :: rest =>
        match skipSpace rest with
        | [] => none
        | quote :: rest =>
          if !isQuote quote then none
          else
            match rest.span (· != quote) with
            | (_, []) => none
            | (value, _ :: rest) =>
              if rest.length < cs.length then
                (attributesFrom rest).map fun more => (⟨name, value⟩ :: more.1, more.2)
              else none
      | _ => none
termination_by cs.length

/-- Read a tag. -/
def Tag.read? : List Char → Option Tag
  | '/' :: raw =>
    let (name, rest) := takeName raw
    if rest.all isSpace then some (.closing name) else none
  | raw =>
    let (name, rest) := takeName raw
    (attributesFrom rest).map fun more => .opening name more.1 more.2

end RegisterMap.Markup
