import RegisterMap.Markup.Fragment
import RegisterMap.Markup.Remark

/-!
# Definitions of a document

A document can define entities, say what an element may contain, and give types and default values
to attributes. This module holds what is defined and its use in values of attributes, where
references are replaced and white space becomes spaces.

Replacements can contain references again, also to entities that are defined later. They nest at
most `nestingLimit` deep, so an entity that contains itself has no replacement.
-/

namespace RegisterMap.Markup

/-- How deep replacements may nest in the content of elements. -/
def nestingLimit : Nat := 20

/-- What an entity stands for. -/
inductive Replacement where
  | text (cs : List Char)
  /-- Something at another place. It is never fetched. -/
  | elsewhere (place : List Char)
deriving DecidableEq, Repr

/-- What an element is said to contain. -/
inductive ContentKind where
  /-- Text, or nothing at all. -/
  | text
  /-- Other elements only. -/
  | elements
deriving DecidableEq, Repr

/-- The forms of values of attributes. -/
inductive AttributeType where
  | text
  | identifier
  | name
  | names
  | token
  | tokens
deriving DecidableEq, Repr

/-- The words of a value. -/
def wordsOf (value : List Char) : List (List Char) :=
  value.splitOnP (· == ' ')

/-- The characters may form a word of a value. -/
def isToken (cs : List Char) : Bool :=
  !cs.isEmpty && cs.all fun c => isNamePart c || c == ':'

/-- The value has the form that its type asks for. -/
def AttributeType.allows : AttributeType → List Char → Bool
  | .text, _ => true
  | .identifier, value | .name, value => isName value
  | .names, value => (wordsOf value).all isName
  | .token, value => isToken value
  | .tokens, value => (wordsOf value).all isToken

/-- What is said about an attribute of an element. -/
structure AttributeRule where
  element : List Char
  name : List Char
  type : AttributeType
  /-- The value where the attribute is not given. -/
  value : Option (List Char)
deriving DecidableEq, Repr

/-- What a document defines. Of several definitions of one name the first counts. -/
structure Definitions where
  /-- The document says that nothing outside of it matters. -/
  standalone : Bool := false
  /-- Other definitions may be at places that are not read. -/
  incomplete : Bool := false
  entities : List (List Char × Replacement) := []
  /-- The entities that can be used between definitions. -/
  parameters : List (List Char × Replacement) := []
  contents : List (List Char × ContentKind) := []
  attributes : List AttributeRule := []
  /-- The names of the formats of data outside of the document. -/
  formats : List (List Char) := []
deriving DecidableEq, Repr

/-- Without runs of spaces, and without spaces at the ends. -/
def collapseSpaces (value : List Char) : List Char :=
  [' '].intercalate ((wordsOf value).filter (!·.isEmpty))

namespace Definitions

/-- A name without a definition. That is no form at all where every definition has been read, and a
fault elsewhere. -/
def undefinedName (d : Definitions) : Remarked Unit :=
  if d.standalone || !d.incomplete then Remarked.giveUp else Remarked.remark .fault

/-- The replacement of an entity; `none` if its definition may be at a place that is not read. -/
def replacement (d : Definitions) (name : List Char) : Remarked (Option (List Char)) :=
  match d.entities.lookup name with
  | some (.text cs) => pure (some cs)
  | some (.elsewhere _) => Remarked.giveUp
  | none => do
    d.undefinedName
    return none

/-- A value with its references replaced. The replacements of entities are read by the argument. -/
def expandWith (d : Definitions) (inner : List Char → Remarked (List Char)) (value : List Char) :
    Remarked (List Char) := do
  let fragments ← Fragment.divide? value
  let parts ← fragments.mapM fun
    | .text cs => do
      Remarked.require (!cs.contains '<')
      return cs.map fun c => if isSpace c then ' ' else c
    | .character c => pure [c]
    | .entity name =>
      match standardEntity? name with
      | some c => pure [c]
      | none => do
        match ← d.replacement name with
        | some cs => inner cs
        | none => pure []
  return parts.flatten

/-- A value with its references replaced, which nest at most `n` deep. -/
def expand (d : Definitions) : Nat → List Char → Remarked (List Char)
  | 0 => d.expandWith fun _ => Remarked.giveUp
  | n + 1 => d.expandWith (d.expand n)

/-- The value that is written between quotation marks. A line end counts as one space. -/
def value (d : Definitions) (n : Nat) (written : List Char) : Remarked (List Char) :=
  d.expand n (normalizeLines written)

/-- What is said about an attribute of an element. -/
def rule? (d : Definitions) (element name : List Char) : Option AttributeRule :=
  d.attributes.find? fun r => r.element == element && r.name == name

end Definitions

end RegisterMap.Markup
