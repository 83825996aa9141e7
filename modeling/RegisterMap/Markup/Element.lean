/-!
# Elements

A document as a tree of elements. Of the character data of an element only the text before its first
child element is kept, since that is where the format puts values.
-/

namespace RegisterMap

/-- An element of a document. -/
structure Element where
  /-- The name, preceded by its namespace in braces if it has one. -/
  tag : String
  /-- The line on which the start tag ends. -/
  line : Nat
  attributes : List (String × String)
  /-- The text before the first child element; `none` if there is no character data at all. -/
  text : Option String
  children : List Element
deriving Repr, Inhabited

namespace Element

mutual

/-- Decide whether two elements are equal. -/
def decEq : (e f : Element) → Decidable (e = f)
  | ⟨tag, line, attributes, text, es⟩, ⟨tag', line', attributes', text', fs⟩ =>
    if h : (tag, line, attributes, text) = (tag', line', attributes', text') then
      match decEqAll es fs with
      | isTrue h' => isTrue (by simp_all)
      | isFalse h' => isFalse fun e => h' (Element.mk.inj e).2.2.2.2
    else isFalse fun e => h (by simp_all)

/-- Decide whether two lists of elements are equal. -/
def decEqAll : (es fs : List Element) → Decidable (es = fs)
  | [], [] => isTrue rfl
  | e :: es, f :: fs =>
    match decEq e f, decEqAll es fs with
    | isTrue h, isTrue h' => isTrue (h ▸ h' ▸ rfl)
    | isFalse h, _ => isFalse fun e => h (List.cons.inj e).1
    | _, isFalse h' => isFalse fun e => h' (List.cons.inj e).2
  | [], _ :: _ => isFalse nofun
  | _ :: _, [] => isFalse nofun

end

instance : DecidableEq Element := decEq

/-- The first child element with a tag. -/
def child? (e : Element) (tag : String) : Option Element :=
  e.children.find? (·.tag == tag)

/-- The child elements with a tag, in document order. -/
def childrenTagged (e : Element) (tag : String) : List Element :=
  e.children.filter (·.tag == tag)

/-- The value of an attribute. -/
def attribute? (e : Element) (name : String) : Option String :=
  e.attributes.lookup name

/-- The text of an element of the format, which is empty if there is no character data. -/
def content (e : Element) : String :=
  e.text.getD ""

end Element

end RegisterMap
