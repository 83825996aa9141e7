import RegisterMap.BitRange
import RegisterMap.NodePath.Basic
import RegisterMap.Properties
import RegisterMap.Text.Numeral

/-!
# Malformed values

The ways in which a text fails to denote a value, with the message for each.
-/

namespace RegisterMap

/-- Why a text denotes no value. -/
inductive Malformed where
  /-- The text is not a number in its base. -/
  | numeral (n : Text.Numeral)
  /-- The text, if there is any, is not a word of the vocabulary. -/
  | word (kind : VocabularyKind) (text : Option String)
  /-- A bit range has this number of bounds instead of two. -/
  | bounds (count : Nat)
  /-- The parts of a path made from these arguments include an empty one. -/
  | path (args : List NodePath.Argument)
  /-- A reference includes an empty name. -/
  | reference (text : String)
  /-- The mask of a range with a negative offset or width. -/
  | negativeShift
  /-- A span of a path with a step of zero. -/
  | zeroStep
deriving DecidableEq, Repr

namespace Malformed

/-- How much of a text that is not a number is shown. -/
def shownLength : Nat := 200

/-- The text for people. -/
def message : Malformed → String
  | .numeral n =>
    "invalid literal for int() with base " ++ toString n.base ++ ": " ++
      Text.quotedUpTo shownLength n.digits
  | .word kind text =>
    (text.map Text.quoted).getD "None" ++ " is not a valid " ++ kind.title
  | .bounds count =>
    if count < 2 then "not enough values to unpack (expected 2, got " ++ toString count ++ ")"
    else "too many values to unpack (expected 2)"
  | .path args =>
    "Invalid NodePath parts: " ++ Text.tuple (args.map NodePath.Argument.describe)
  | .reference text => "Invalid element reference '" ++ text ++ "'"
  | .negativeShift => "negative shift count"
  | .zeroStep => "slice step cannot be zero"

end Malformed

/-- The number that a scaled numeral denotes. -/
def readNumber (s : String) : Except Malformed Int :=
  match Text.scaled? s with
  | some n => .ok n
  | none => .error (.numeral (Text.scale s))

/-- The member of a vocabulary that a text names. -/
def readWord {α : Type} [Vocabulary α] (text : Option String) : Except Malformed α :=
  match text.bind Vocabulary.read? with
  | some a => .ok a
  | none => .error (.word (Vocabulary.kind α) text)

end RegisterMap
