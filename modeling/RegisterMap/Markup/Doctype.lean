import RegisterMap.Markup.ContentModel
import RegisterMap.Markup.ExternalId
import RegisterMap.Markup.Instruction

/-!
# Document type declarations

A document type declaration names the root element, may refer to definitions at another place, which
are not read, and may contain definitions in brackets: declarations, comments, instructions and
references to parameter entities, whose replacements are definitions again.

A declaration is divided into lexemes and read by its keyword. What has no form ends the reading;
repeated or unsuitable definitions are remarked on.
-/

namespace RegisterMap.Markup

/-- An item between the brackets, without its delimiters. Comments are left out. -/
inductive DoctypeItem where
  | declaration (raw : List Char)
  | instruction (raw : List Char)
  | parameter (name : List Char)
deriving DecidableEq, Repr

/-- What a reader of items is inside of. -/
inductive ItemMode where
  | between
  | comment
  | instruction
  | parameter
  | declaration (quote : Option Char)
deriving DecidableEq, Repr

namespace DoctypeItem

/-- Divide the rest of the definitions, given the reversed characters of the item so far. -/
def divideFrom : ItemMode → List Char → List Char → Option (List DoctypeItem)
  | .between, _, [] => some []
  | _, _, [] => none
  | .between, _, '<' :: '!' :: '-' :: '-' :: cs => divideFrom .comment [] cs
  | .between, _, '<' :: '!' :: cs => divideFrom (.declaration none) [] cs
  | .between, _, '<' :: '?' :: cs => divideFrom .instruction [] cs
  | .between, _, '%' :: cs => divideFrom .parameter [] cs
  | .between, _, c :: cs => if isSpace c then divideFrom .between [] cs else none
  | .comment, _, '-' :: '-' :: '>' :: cs => divideFrom .between [] cs
  | .comment, _, '-' :: '-' :: _ => none
  | .comment, _, _ :: cs => divideFrom .comment [] cs
  | .instruction, acc, '?' :: '>' :: cs =>
    (divideFrom .between [] cs).map (.instruction acc.reverse :: ·)
  | .instruction, acc, c :: cs => divideFrom .instruction (c :: acc) cs
  | .parameter, acc, ';' :: cs => (divideFrom .between [] cs).map (.parameter acc.reverse :: ·)
  | .parameter, acc, c :: cs => divideFrom .parameter (c :: acc) cs
  | .declaration none, acc, '>' :: cs =>
    (divideFrom .between [] cs).map (.declaration acc.reverse :: ·)
  | .declaration none, acc, c :: cs =>
    divideFrom (.declaration (if isQuote c then some c else none)) (c :: acc) cs
  | .declaration (some q), acc, c :: cs =>
    divideFrom (.declaration (if c = q then none else some q)) (c :: acc) cs

/-- The items of definitions. -/
def divide? (cs : List Char) : Option (List DoctypeItem) :=
  divideFrom .between [] cs

end DoctypeItem

namespace Definitions

/-- Say what an element contains. -/
def addContent (d : Definitions) (ls : List Lexeme) : Remarked Definitions := do
  let (name, ls) ← Lexeme.name? ls
  let (kind, ls) ← contentKind? (← Lexeme.afterSpaces? ls)
  Remarked.require (Lexeme.areSpaces ls)
  Remarked.remarkIf (d.contents.any (·.1 == name)) .fault
  return { d with contents := d.contents ++ [(name, kind)] }

/-- Name a format of data outside of the document. -/
def addFormat (d : Definitions) (ls : List Lexeme) : Remarked Definitions := do
  let (name, ls) ← Lexeme.name? ls
  Remarked.remarkIf (name.contains ':') .fault
  let (id, ls) ← ExternalId.read? false (← Lexeme.afterSpaces? ls)
  Remarked.require (id.isSome && Lexeme.areSpaces ls)
  Remarked.remarkIf (d.formats.contains name) .fault
  return { d with formats := name :: d.formats }

/-- The replacement that a literal gives to an entity. References to characters are replaced, those
to entities stay. A reference to a parameter entity is refused, unless the entity is unknown; then
the literal ends there. The second value says whether that is so. -/
def literalFrom (d : Definitions) : List Fragment → Remarked (List Char × Bool)
  | [] => pure ([], false)
  | .character c :: more => do
    let (cs, broken) ← literalFrom d more
    return (c :: cs, broken)
  | .entity name :: more => do
    let (cs, broken) ← literalFrom d more
    return ('&' :: name ++ ';' :: cs, broken)
  | .text cs :: more =>
    match cs.span (· != '%') with
    | (_, []) => do
      let (rest, broken) ← literalFrom d more
      return (cs ++ rest, broken)
    | (front, _ :: rest) => do
      let (name, behind) := rest.span (· != ';')
      Remarked.require (!behind.isEmpty && isName name && (d.parameters.lookup name).isNone)
      return (front, true)

/-- The replacement in a literal, and what it lets expect of other definitions. -/
def literal (d : Definitions) (raw : List Char) : Remarked (Replacement × Definitions) := do
  let (cs, broken) ← d.literalFrom (← Fragment.divide? raw)
  if broken then
    let d := { d with incomplete := true }
    d.undefinedName
    return (.text cs, d)
  else return (.text cs, d)

/-- The replacement says of an entity that needs no definition what holds anyway: it is the
character itself, where that has no meaning in content, or a reference to it. -/
def restates (c : Char) : Replacement → Bool
  | .text cs =>
    (cs == [c] && (c == '>' || isQuote c)) || Fragment.divide? cs == some [.character c]
  | .elsewhere _ => false

/-- Define an entity, unless it has a definition. -/
def define (d : Definitions) (isParameter : Bool) (name : List Char) (r : Replacement) :
    Remarked Definitions :=
  if isParameter then
    pure (if (d.parameters.lookup name).isSome then d
      else { d with parameters := (name, r) :: d.parameters })
  else
    match standardEntity? name with
    | some c => do
      Remarked.remarkIf (!restates c r) .oddity
      return d
    | none =>
      pure (if (d.entities.lookup name).isSome then d
        else { d with entities := (name, r) :: d.entities })

/-- Read what is behind the place of an entity: a format of data makes it one that is no text. -/
def afterFormat? (ls : List Lexeme) : Option (List Lexeme) :=
  match ls with
  | [] => some []
  | ls => do
    let ls ← Lexeme.afterSpaces? ls
    match Lexeme.afterKeyword? "NDATA" ls with
    | some ls => some (((Lexeme.name? ls).map (·.2)).getD ls)
    | none => some ls

/-- Define an entity. -/
def addEntity (d : Definitions) (ls : List Lexeme) : Remarked Definitions := do
  let (isParameter, ls) ←
    match ls with
    | .mark '%' :: ls => do
      let ls ← Lexeme.afterSpaces? ls
      pure (true, ls)
    | ls => pure (false, ls)
  let (name, ls) ← Lexeme.name? ls
  Remarked.remarkIf (name.contains ':') .fault
  let ls ← Lexeme.afterSpaces? ls
  match ls with
  | .literal raw :: ls => do
    let (r, d) ← d.literal raw
    Remarked.require (Lexeme.areSpaces ls)
    d.define isParameter name r
  | ls => do
    let (id, ls) ← ExternalId.read? true ls
    match id.bind (·.place) with
    | none => Remarked.giveUp
    | some place =>
      Remarked.require (!place.contains '#')
      let ls ← if isParameter then pure ls else (afterFormat? ls : Option (List Lexeme))
      Remarked.require (Lexeme.areSpaces ls)
      d.define isParameter name (.elsewhere place)

/-- Read the words of a choice, separated by bars, to the closing parenthesis. -/
def choicesFrom : GroupPlace → List Lexeme → Option (List (List Char) × List Lexeme)
  | place, .space :: ls => choicesFrom place ls
  | .item, .word cs :: ls => (choicesFrom (.separator true) ls).map fun c => (cs :: c.1, c.2)
  | .separator _, .mark '|' :: ls => choicesFrom .item ls
  | .separator _, .mark ')' :: ls => some ([], ls)
  | _, _ => none

/-- Read the type of an attribute. A word that is repeated in a choice is a fault. -/
def attributeType (ls : List Lexeme) : Remarked (AttributeType × List Lexeme) :=
  let choice (type : AttributeType) (allowed : List Char → Bool) (ls : List Lexeme) :
      Remarked (AttributeType × List Lexeme) := do
    let (words, ls) ← choicesFrom .item ls
    Remarked.require (words.all allowed)
    Remarked.remarkIf (!words.Nodup) .fault
    return (type, ls)
  match ls with
  | .mark '(' :: ls => choice .tokens (fun _ => true) ls
  | .word cs :: ls =>
    match String.ofList cs with
    | "CDATA" => pure (.text, ls)
    | "ID" => pure (.identifier, ls)
    | "IDREF" | "ENTITY" => pure (.name, ls)
    | "IDREFS" | "ENTITIES" => pure (.names, ls)
    | "NMTOKEN" => pure (.token, ls)
    | "NMTOKENS" => pure (.tokens, ls)
    | "NOTATION" =>
      match Lexeme.afterSpaces? ls with
      | some (.mark '(' :: ls) => choice .name isName ls
      | _ => Remarked.giveUp
    | _ => Remarked.giveUp
  | _ => Remarked.giveUp

/-- Read what holds where an attribute is not given: its value, if it has one. -/
def attributeDefault? : List Lexeme → Option (Option (List Char) × List Lexeme)
  | .mark '#' :: .word cs :: ls =>
    match String.ofList cs with
    | "REQUIRED" | "IMPLIED" => some (none, ls)
    | "FIXED" => do
      let (raw, ls) ← Lexeme.literal? (← Lexeme.afterSpaces? ls)
      return (some raw, ls)
    | _ => none
  | .literal raw :: ls => some (some raw, ls)
  | _ => none

/-- Add what is said about an attribute. -/
def addRule (d : Definitions) (r : AttributeRule) : Remarked Definitions := do
  Remarked.remarkIf (String.ofList r.name == "xml:id" && r.type != .identifier) .fault
  Remarked.remarkIf (!r.value.all r.type.allows) .fault
  if (d.rule? r.element r.name).isSome then
    Remarked.remark .oddity
    return d
  else
    Remarked.remarkIf (r.type == .identifier &&
      d.attributes.any fun s => s.element == r.element && s.type == .identifier) .fault
    return { d with attributes := d.attributes ++ [r] }

/-- Read what is said about the attributes of an element, of which there are at most `n`. -/
def addRulesFrom (element : List Char) : Nat → Definitions → List Lexeme → Remarked Definitions
  | _, d, [] => pure d
  | 0, _, _ => Remarked.giveUp
  | n + 1, d, ls => do
    let (name, ls) ← Lexeme.name? ls
    let (type, ls) ← attributeType (← Lexeme.afterSpaces? ls)
    let (written, ls) ← attributeDefault? (← Lexeme.afterSpaces? ls)
    let value ← written.mapM (d.value (nestingLimit - 1))
    let ls ← match ls with
      | [] => pure []
      | ls => (Lexeme.afterSpaces? ls : Option (List Lexeme))
    let value := if type = .text then value else value.map collapseSpaces
    let d ← d.addRule { element, name, type, value }
    addRulesFrom element n d ls

/-- Say something about the attributes of an element. -/
def addRules (d : Definitions) (ls : List Lexeme) : Remarked Definitions := do
  let (element, ls) ← Lexeme.name? ls
  addRulesFrom element ls.length d (Lexeme.skipSpaces ls)

/-- Read a declaration. -/
def addDeclaration (d : Definitions) (raw : List Char) : Remarked Definitions := do
  let ls ← Lexeme.divide? raw
  match ls with
  | .word cs :: ls => do
    let ls ← Lexeme.afterSpaces? ls
    match String.ofList cs with
    | "ELEMENT" => d.addContent ls
    | "ATTLIST" => d.addRules ls
    | "ENTITY" => d.addEntity ls
    | "NOTATION" => d.addFormat ls
    | _ => Remarked.giveUp
  | _ => Remarked.giveUp

/-- Use a parameter entity. Its replacement is read by the argument. One at another place is not
fetched, which is an oddity, or a fault if the place is in a network. -/
def addParameter (inner : Definitions → List Char → Remarked Definitions) (d : Definitions)
    (name : List Char) : Remarked Definitions := do
  Remarked.require (isName name)
  let d := { d with incomplete := true }
  match d.parameters.lookup name with
  | some (.text cs) => inner d cs
  | some (.elsewhere place) => do
    Remarked.remark (if (String.ofList place).toLower.startsWith "http://" then .fault else .oddity)
    return d
  | none => do
    d.undefinedName
    return d

/-- Read definitions. The replacements of parameter entities are read by the argument. -/
def addItemsWith (inner : Definitions → List Char → Remarked Definitions) (d : Definitions)
    (text : List Char) : Remarked Definitions := do
  let items ← DoctypeItem.divide? text
  items.foldlM (fun d item =>
    match item with
    | .declaration raw => d.addDeclaration raw
    | .instruction raw => do
      readInstruction raw
      return d
    | .parameter name => d.addParameter inner name) d

/-- Read definitions, in which parameter entities nest at most `n` deep. -/
def addItems : Nat → Definitions → List Char → Remarked Definitions
  | 0 => addItemsWith fun _ _ => Remarked.giveUp
  | n + 1 => addItemsWith (addItems n)

/-- Divide a document type declaration at its opening bracket, which is outside of literals. -/
def divideAtBracket : Option Char → List Char → List Char → List Char × Option (List Char)
  | _, acc, [] => (acc.reverse, none)
  | some q, acc, c :: cs => divideAtBracket (if c = q then none else some q) (c :: acc) cs
  | none, acc, c :: cs =>
    if c = '[' then (acc.reverse, some cs)
    else divideAtBracket (if isQuote c then some c else none) (c :: acc) cs

/-- Read a document type declaration. -/
def addDoctype (d : Definitions) (raw : List Char) : Remarked Definitions := do
  let (front, bracketed) := divideAtBracket none [] raw
  let (_, ls) ← Lexeme.name? (← Lexeme.afterSpaces? (← Lexeme.divide? front))
  let (id, ls) ← ExternalId.read? true (Lexeme.skipSpaces ls)
  Remarked.require (Lexeme.areSpaces ls)
  let d := { d with incomplete := d.incomplete || id.isSome }
  match bracketed with
  | none => pure d
  | some rest =>
    match rest.reverse.dropWhile isSpace with
    | ']' :: body => addItems nestingLimit d body.reverse
    | _ => Remarked.giveUp

end Definitions

end RegisterMap.Markup
