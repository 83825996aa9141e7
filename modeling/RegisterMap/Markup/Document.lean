import RegisterMap.Error
import RegisterMap.Markup.Declaration
import RegisterMap.Markup.Doctype
import RegisterMap.Markup.Element
import RegisterMap.Markup.Namespace
import RegisterMap.Markup.Run
import RegisterMap.Markup.Segment

/-!
# Documents

The elements of a document are read from its segments with a stack of the elements that are open.
Each open element keeps the namespaces that are in scope inside of it, its text so far and its
children so far. White space that stands before the first text of an element is layout, not text,
unless it is all that the element contains.

The replacement of an entity is read where the entity is first used, as the content of an element of
its own. What this gives is kept, and it is repeated wherever the entity is used again.
-/

namespace RegisterMap.Markup

/-- How many elements may be open around an element. -/
def levelLimit : Nat := 256

/-- What an element or the replacement of an entity consists of: the text before the first element,
if there is any, and the elements. -/
structure Content where
  text : Option String := none
  /-- The elements, last first. -/
  children : List Element := []
deriving Repr

/-- Content followed by other content. -/
def Content.append (c more : Content) : Content where
  text :=
    if c.children.isEmpty then more.text.elim c.text fun t => some (c.text.getD "" ++ t) else c.text
  children := more.children ++ c.children

/-- An element whose end tag has not been read. -/
structure OpenElement where
  /-- The name as it is written. -/
  name : List Char
  tag : String
  line : Nat
  attributes : List (String × String)
  scope : Scope
  /-- How many elements are open around it. -/
  level : Nat
  /-- All white space is text, or, if this is `some false`, it is what it would be anyway. -/
  preserves : Option Bool
  /-- What the document says about its content. -/
  kind : Option ContentKind
  /-- Characters have been kept that were not written as references. -/
  hasText : Bool := false
  content : Content := {}

namespace OpenElement

/-- The element, once its end tag has been read. -/
def close (e : OpenElement) : Element where
  tag := e.tag
  line := e.line
  attributes := e.attributes
  text := e.content.text
  children := e.content.children.reverse

/-- Add content. -/
def add (e : OpenElement) (c : Content) : OpenElement :=
  { e with content := e.content.append c }

/-- Add character data. -/
def addText (e : OpenElement) (cs : List Char) : OpenElement :=
  e.add { text := some (String.ofList cs) }

/-- White space counts as layout, given whether it may do so by what follows it. -/
def hasLayout (e : OpenElement) (maybeLayout : Bool) : Bool :=
  e.preserves != some true && !e.hasText &&
    match e.kind with
    | some .elements => true
    | some .text => false
    | none => maybeLayout && e.content.text.isNone

/-- Add a piece of a run of character data, unless it is layout. -/
def addPiece (e : OpenElement) (cs : List Char) (maybeLayout : Bool) : OpenElement :=
  if cs.all isSpace && e.hasLayout maybeLayout then e
  else { e.addText cs with hasText := e.hasText || e.preserves.isNone }

end OpenElement

/-- How far the reader of a document has come. -/
structure ReaderState where
  /-- The open elements, innermost first. -/
  stack : List OpenElement := []
  root : Option Element := none
  seenDoctype : Bool := false
  definitions : Definitions := {}
  /-- The identifiers of elements. -/
  identifiers : List (List Char) := []
  /-- The entities that have been used, with what their replacements consist of. -/
  replacements : List (List Char × Content) := []

namespace ReaderState

/-- Add content to the innermost open element. -/
def add (s : ReaderState) (c : Content) : Remarked ReaderState :=
  match s.stack with
  | [] => Remarked.giveUp
  | top :: below => pure { s with stack := top.add c :: below }

/-- Put a finished element into the innermost open one, or make it the root. -/
def place (s : ReaderState) (e : Element) : ReaderState :=
  match s.stack with
  | [] => { s with root := some e }
  | top :: below => { s with stack := top.add { children := [e] } :: below }

/-- An attribute with its name divided and its value replaced. -/
structure Attribute where
  written : List Char
  name : QualifiedName
  value : List Char

/-- Read an attribute of an element, with references nested at most `n` deep, and the binding that
it makes, if it is one. -/
def readAttribute (d : Definitions) (n : Nat) (element : List Char) (a : WrittenAttribute) :
    Remarked (Attribute × Option Scope) := do
  let name ← QualifiedName.read a.name
  let value ← d.value n a.value
  let isText := (d.rule? element a.name).all fun r => r.type == .text
  let value := if isText then value else collapseSpaces value
  let isKnown := String.ofList value = "default" ∨ String.ofList value = "preserve"
  Remarked.remarkIf (name = ⟨some xmlSpace, "space".toList⟩ ∧ ¬isKnown) .oddity
  let bound ← name.boundPrefix?.mapM fun space => Scope.binding space value
  return (⟨a.name, name, value⟩, bound)

/-- The attributes that are said to have a value in an element where they are not given. -/
def defaultAttributes (d : Definitions) (element : List Char) : List Attribute :=
  (d.attributes.filter (·.element == element)).filterMap fun r => do
    let value ← r.value
    let name ← QualifiedName.ofChars? r.name
    return ⟨r.name, name, value⟩

/-- Give names with namespaces to attributes. The same name twice in one way of writing has no form,
in two ways of writing it is a fault. -/
def nameAttributes (scope : Scope) (attributes : List Attribute) :
    Remarked (List (Attribute × (List Char × List Char))) := do
  let named ← attributes.mapM fun a => do
    let name ← scope.attributeName a.name
    return (a, name)
  Remarked.require (attributes.map (·.written)).Nodup
  Remarked.remarkIf (!(named.map (·.2)).Nodup) .fault
  return named

/-- Note the identifiers among attributes. Each may be used once in a document; that of the prefix
`xml` has to be a plain name. -/
def noteIdentifiers (s : ReaderState) (element : List Char) (attributes : List Attribute) :
    Remarked ReaderState :=
  attributes.foldlM (fun s a => do
    let isOwn := a.name == ⟨some xmlSpace, "id".toList⟩
    let isTyped := (s.definitions.rule? element a.written).any (·.type == .identifier)
    if isOwn || isTyped then
      let trimmed := ((a.value.dropWhile isSpace).reverse.dropWhile isSpace).reverse
      Remarked.remarkIf (isOwn && !isPlainName trimmed) .fault
      Remarked.remarkIf (s.identifiers.contains a.value) .fault
      return { s with identifiers := a.value :: s.identifiers }
    else return s) s

/-- Open an element, with references in its attributes nested at most `n` deep. Of the attributes
that are not given, those that bind namespaces have an effect; the others remain absent, but their
prefixes have to be bound. -/
def openElement (s : ReaderState) (n line : Nat) (name : List Char)
    (written : List WrittenAttribute) : Remarked ReaderState := do
  let d := s.definitions
  let parent := s.stack.head?
  Remarked.require (parent.isSome || s.root.isNone)
  let level := (parent.map (·.level + 1)).getD 0
  Remarked.require (level ≤ levelLimit)
  let q ← QualifiedName.read name
  let read ← written.mapM (readAttribute d n name)
  let bindings := (read.filterMap (·.2)).flatten
  Remarked.require (bindings.map (·.1)).Nodup
  let given := (read.filter (·.2.isNone)).map (·.1)
  let defaults := defaultAttributes d name
  let implied := defaults.filterMap fun a => a.name.boundPrefix?.map fun space => (space, a.value)
  let scope : Scope := bindings ++ implied ++ (parent.map (·.scope)).getD []
  let named ← nameAttributes scope given
  let others := defaults.filter fun a => a.name.boundPrefix?.isNone
  others.forM fun a => do
    let _ ← scope.attributeName a.name
  let (uri, main) ← scope.elementName q
  let s ← s.noteIdentifiers name given
  let preserves :=
    match (given.find? (·.name == ⟨some xmlSpace, "space".toList⟩)).map
      (String.ofList ·.value) with
    | some "preserve" => some true
    | some "default" => some false
    | _ => parent.bind (·.preserves)
  let e : OpenElement :=
    { name, line, scope, level, preserves
      tag := expandedName uri main
      attributes := named.map fun a => (expandedName a.2.1 a.2.2, String.ofList a.1.value)
      kind := d.contents.lookup q.main }
  return { s with stack := e :: s.stack }

/-- Close the innermost open element. -/
def closeElement (s : ReaderState) : Remarked ReaderState :=
  match s.stack with
  | [] => Remarked.giveUp
  | top :: below => pure (place { s with stack := below } top.close)

/-- Use an entity in content. Its replacement is read by the argument. -/
def useEntity (inner : List Char → ReaderState → Remarked ReaderState) (s : ReaderState)
    (name : List Char) : Remarked ReaderState :=
  match standardEntity? name, s.replacements.lookup name with
  | some c, _ => s.add { text := some (String.singleton c) }
  | none, some content => s.add content
  | none, none => do
    match ← s.definitions.replacement name, s.stack with
    | none, _ => return s
    | some _, [] => Remarked.giveUp
    | some cs, top :: _ => do
      let frame : OpenElement :=
        { name := [], tag := "", line := 0, attributes := [], scope := top.scope
          level := top.level + 1, preserves := none, kind := none }
      let inside ← inner cs { s with stack := [frame] }
      match inside.stack with
      | [e] =>
        let replacements := (name, e.content) :: inside.replacements
        add { inside with stack := s.stack, replacements } e.content
      | _ => Remarked.giveUp

/-- Add a run of character data to the innermost open element. -/
def addRun (inner : List Char → ReaderState → Remarked ReaderState) (s : ReaderState)
    (run : List Char) (maybeLayout : Bool) : Remarked ReaderState := do
  let pieces ← Piece.divide? maybeLayout run
  pieces.foldlM (fun s piece =>
    match piece with
    | .text cs maybeLayout =>
      match s.stack with
      | [] => Remarked.giveUp
      | top :: below => pure { s with stack := top.addPiece cs maybeLayout :: below }
    | .character c => s.add { text := some (String.singleton c) }
    | .entity name => s.useEntity inner name) s

/-- Read a segment, given whether white space before the next segment may be layout. -/
def step (inner : List Char → ReaderState → Remarked ReaderState) (n : Nat) (maybeLayout : Bool)
    (s : ReaderState) : Segment → Remarked ReaderState
  | .text raw =>
    if s.stack.isEmpty then do
      Remarked.require (raw.all isSpace)
      return s
    else s.addRun inner raw maybeLayout
  | .tag line raw => do
    match ← (Tag.read? raw : Option Tag) with
    | .opening name attributes closed => do
      let s ← s.openElement n line name attributes
      if closed then s.closeElement else return s
    | .closing name => do
      Remarked.require (s.stack.head?.any (·.name == name))
      s.closeElement
  | .comment => pure s
  | .instruction raw => do
    readInstruction raw
    return s
  | .literal raw => s.add { text := some (String.ofList (normalizeLines raw)) }
  | .doctype raw => do
    Remarked.require (s.stack.isEmpty && s.root.isNone && !s.seenDoctype)
    let definitions ← s.definitions.addDoctype raw
    return { s with definitions, seenDoctype := true }

/-- White space at the end of character data may be layout, unless an end tag or nothing follows. -/
def maybeLayoutBefore : List Segment → Bool
  | [] => false
  | .tag _ ('/' :: _) :: _ => false
  | _ => true

/-- Read segments. The replacements of entities are read by the argument. -/
def readWith (inner : List Char → ReaderState → Remarked ReaderState) (n : Nat) :
    List Segment → ReaderState → Remarked ReaderState
  | [], s => pure s
  | segment :: rest, s => do
    let s ← s.step inner n (maybeLayoutBefore rest) segment
    readWith inner n rest s

/-- Read text in which entities nest at most `n` deep, one level less in attributes. -/
def readNested : Nat → List Char → ReaderState → Remarked ReaderState
  | 0, text, s => do readWith (fun _ _ => Remarked.giveUp) 0 (← segments text) s
  | n + 1, text, s => do readWith (readNested n) n (← segments text) s

end ReaderState

/-- The root element of a document, after its own declaration. -/
def readBody (standalone : Bool) (body : List Segment) : Remarked Element := do
  let s ← ReaderState.readWith (ReaderState.readNested (nestingLimit - 1)) (nestingLimit - 1) body
    { definitions := { standalone } }
  Remarked.require s.stack.isEmpty
  s.root

/-- The root element of a document. -/
def readChars (cs : List Char) : Option Element := do
  if !cs.all isAllowed then none
  match ← segments cs with
  | .instruction raw :: body =>
    if Declaration.isDeclaration raw then
      let declaration ← Declaration.read? raw
      (readBody declaration.standalone body).outcome?
    else (readBody false (.instruction raw :: body)).outcome?
  | body => (readBody false body).outcome?

end RegisterMap.Markup
