import RegisterMap.Error

/-!
# Dimensions

A dimensioned element stands for several instances of itself at regular distances. Each instance has
an index token; the tokens are given as a list separated by commas, as a range of numbers or of
capital letters, or not at all, in which case the instances are numbered from zero. The name of an
instance is the declared name with the token in the place of each `%s`.

Main definitions: `Dimension.tokens` and `instanceName`.
-/

namespace RegisterMap

/-- How often an element is repeated, and at which distance. -/
structure Dimension where
  length : Int
  step : Int
  /-- The index list as it is written. -/
  index : Option String := none
deriving DecidableEq, Repr

namespace Dimension

/-- The number written by decimal digits of any script. -/
def decimalValue (digits : List Char) : Nat :=
  digits.foldl (fun n c => n * 10 + (Text.decimal? c).getD 0) 0

/-- The two sides of a hyphen, without the blank space around it. -/
def hyphenated? (cs : List Char) : Option (List Char × List Char) :=
  match cs.span (· != '-') with
  | (first, _ :: last) =>
    some ((first.reverse.dropWhile Text.isBlank).reverse, last.dropWhile Text.isBlank)
  | _ => none

/-- The bounds of a range of numbers such as `3-6`. -/
def numericRange? (cs : List Char) : Option (Nat × Nat) :=
  match hyphenated? cs with
  | some (first, last) =>
    let isNumber (ds : List Char) := !ds.isEmpty && ds.all fun c => (Text.decimal? c).isSome
    if isNumber first && isNumber last then some (decimalValue first, decimalValue last) else none
  | none => none

/-- The bounds of a range of capital letters such as `A-D`. -/
def letterRange? (cs : List Char) : Option (Char × Char) :=
  match hyphenated? cs with
  | some ([first], [last]) =>
    let isCapital (c : Char) := decide ('A' ≤ c ∧ c ≤ 'Z')
    if isCapital first && isCapital last then some (first, last) else none
  | _ => none

/-- The numerals from one number to another, both included. -/
def numerals (first last : Nat) : List String :=
  (List.range' first (last + 1 - first)).map toString

/-- The letters from one letter to another, both included. -/
def letters (first last : Char) : List String :=
  (List.range' first.toNat (last.toNat + 1 - first.toNat)).map fun n =>
    String.singleton (Char.ofNat n)

/-- The tokens that an index list denotes. -/
def indexTokens (index : String) : Except DimensionFault (List String) :=
  let text := Text.trimChars Text.isBlank index.toList
  match numericRange? text, letterRange? text with
  | some (first, last), _ => .ok (numerals first last)
  | none, some (first, last) => .ok (letters first last)
  | none, none =>
    let tokens := (Text.pieces ',' (String.ofList text)).map Text.trim
    if tokens.any (·.isEmpty) then .error (.malformedIndex index) else .ok tokens

/-- The index token of each instance, in order. -/
def tokens (dim : Dimension) : Except DimensionFault (List String) :=
  match dim.index with
  | none => .ok ((List.range dim.length.toNat).map toString)
  | some index => do
    let ts ← indexTokens index
    if (ts.length : Int) = dim.length then .ok ts
    else .error (.countMismatch index ts.length dim.length)

end Dimension

/-- The characters with each placeholder replaced by a token. -/
def fillPlaceholders (token : List Char) : List Char → List Char
  | '%' :: 's' :: cs => token ++ fillPlaceholders token cs
  | c :: cs => c :: fillPlaceholders token cs
  | [] => []

/-- The name has a place for an index token. -/
def hasPlaceholder : List Char → Bool
  | '%' :: 's' :: _ => true
  | _ :: cs => hasPlaceholder cs
  | [] => false

/-- The brackets that set off the token at the end of a name. -/
def bracketedPlaceholder : List Char := ['[', '%', 's', ']']

/-- The name of one instance of a dimensioned element. A final `[%s]` becomes an underscore and the
token, and the rest of such a name stays as it is; otherwise every `%s` becomes the token. -/
def instanceName (template token : String) : String :=
  let cs := template.toList
  if bracketedPlaceholder.isSuffixOf cs then
    String.ofList (cs.take (cs.length - 4) ++ '_' :: token.toList)
  else String.ofList (fillPlaceholders token.toList cs)

example : instanceName "CH[%s]" "A" = "CH_A" := by decide +kernel

example : instanceName "R%s_%s" "1" = "R1_1" := by decide +kernel

example : (Dimension.tokens ⟨3, 4, some "A-C"⟩).toOption = some ["A", "B", "C"] := by
  decide +kernel

example : (Dimension.tokens ⟨2, 4, some " x , y "⟩).toOption = some ["x", "y"] := by
  decide +kernel

end RegisterMap
