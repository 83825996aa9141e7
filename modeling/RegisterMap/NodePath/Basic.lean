import RegisterMap.Text.Blank
import RegisterMap.Text.Quoted

/-!
# Paths of elements

A path is the chain of names from the device down to an element, written with `/` between the names.
Names may contain the separator themselves: such a name contributes one part for each of its pieces,
so that a path and its text determine each other.

A path is usable when none of its parts is empty. `NodePath.child` appends a name without asking;
`NodePath.ofArguments?` is the checked way to make a path.
-/

namespace RegisterMap

/-- The names on the way from the device to an element. -/
structure NodePath where
  parts : List String := []
deriving DecidableEq, Repr, Inhabited

namespace NodePath

/-- The character between the parts of a path. -/
def separator : Char := '/'

/-- The parts that a name contributes to a path. -/
def split (name : String) : List String :=
  Text.pieces separator name

instance : ToString NodePath := ⟨fun p => String.intercalate "/" p.parts⟩

instance : Append NodePath := ⟨fun p q => ⟨p.parts ++ q.parts⟩⟩

/-- The path of the element called `name` inside the element at `p`. -/
def child (p : NodePath) (name : String) : NodePath :=
  ⟨p.parts ++ split name⟩

/-- The path is written as the text. -/
def isText (p : NodePath) (s : String) : Bool :=
  toString p == s

/-- The path is shown by its text in quotation marks. -/
def describe (p : NodePath) : String :=
  "NodePath(" ++ Text.quoted (toString p) ++ ")"

/-- The last part of the path. -/
def name? (p : NodePath) : Option String :=
  p.parts.getLast?

/-- The path without its last part, if a part remains. -/
def parent? (p : NodePath) : Option NodePath :=
  if p.parts.length ≤ 1 then none else some ⟨p.parts.dropLast⟩

/-- What a path is made from: a text to be split, several such texts, or the parts of a path. -/
inductive Argument where
  | text (s : String)
  | list (ss : List String)
  | path (p : NodePath)
deriving DecidableEq, Repr

namespace Argument

/-- The parts that an argument contributes. -/
def parts : Argument → List String
  | .text s => split s
  | .list ss => ss.flatMap split
  | .path p => p.parts

/-- The argument as messages show it. -/
def describe : Argument → String
  | .text s => Text.quoted s
  | .list ss => Text.quotedList ss
  | .path p => p.describe

end Argument

/-- The path with the parts of all arguments in order, if none of them is empty. -/
def ofArguments? (args : List Argument) : Option NodePath :=
  let parts := args.flatMap Argument.parts
  if parts.any (·.isEmpty) then none else some ⟨parts⟩

@[simp] theorem parts_append (p q : NodePath) : (p ++ q).parts = p.parts ++ q.parts := rfl

@[simp] theorem parts_child (p : NodePath) (name : String) :
    (p.child name).parts = p.parts ++ split name := rfl

end NodePath

end RegisterMap
