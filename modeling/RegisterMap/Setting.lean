import RegisterMap.Text.Quoted

/-!
# Configured values

Bit-band regions are configured by the caller as plain values. A value that does not describe a
region is reported as it was given, so the values of a configuration are kept in a type of their
own until they have been checked.
-/

namespace RegisterMap

/-- A value of a configuration. -/
inductive Setting where
  | absent
  | truth (value : Bool)
  | number (value : Int)
  | text (value : String)
  | sequence (items : List Setting)
deriving Repr, Inhabited

namespace Setting

mutual

/-- The value as messages show it. -/
def describe : Setting → String
  | .absent => "None"
  | .truth true => "True"
  | .truth false => "False"
  | .number n => toString n
  | .text s => Text.quoted s
  | .sequence items => Text.tuple (describeAll items)

/-- The values as messages show them. -/
def describeAll : List Setting → List String
  | [] => []
  | v :: vs => v.describe :: describeAll vs

end

/-- The items that a value consists of, if it is a sequence. A text consists of its characters. -/
def items? : Setting → Option (List Setting)
  | .sequence items => some items
  | .text s => some (s.toList.map fun c => .text (String.singleton c))
  | _ => none

/-- The value as a number. The truth values count as one and zero. -/
def number? : Setting → Option Int
  | .number n => some n
  | .truth b => some (if b then 1 else 0)
  | _ => none

end Setting

end RegisterMap
