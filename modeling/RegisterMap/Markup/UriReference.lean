/-!
# References to resources

A namespace is named by a reference to a resource: a scheme, a colon and what the scheme denotes, or
a reference without a scheme, relative to the document. What follows the scheme is an optional
authority after two slashes, a path, an optional query after a question mark and an optional
fragment after a number sign. All characters are ASCII; others are written as a percent sign with
two hexadecimal digits.

Every reader here drops what it recognises and returns the rest; `none` means that something
required is missing.
-/

namespace RegisterMap.Markup

/-- Whether a reference has a scheme. -/
inductive UriReference where
  | absolute
  | relative
deriving DecidableEq, Repr

namespace UriReference

/-- The character may stand for itself in every part of a reference after its scheme. -/
def isCommon (c : Char) : Bool :=
  c.isAlphanum || "-._~!$&'()*+,;=".toList.contains c

/-- The character is a hexadecimal digit. -/
def isHexDigit (c : Char) : Bool :=
  c.isDigit || ('a' ≤ c && c ≤ 'f') || ('A' ≤ c && c ≤ 'F')

/-- Drop common characters, percent signs with two digits, and characters of an additional class. -/
def dropPart (also : Char → Bool) : List Char → List Char
  | '%' :: a :: b :: cs =>
    if isHexDigit a && isHexDigit b then dropPart also cs else '%' :: a :: b :: cs
  | c :: cs => if isCommon c || also c then dropPart also cs else c :: cs
  | [] => []

/-- Drop a path of any form. -/
def dropPath : List Char → List Char :=
  dropPart fun c => c == ':' || c == '@' || c == '/'

/-- Drop a number from 0 to 255 without leading zeros; 256 to 259 pass as well. -/
def dropOctet? : List Char → Option (List Char)
  | a :: b :: c :: cs =>
    if !a.isDigit then none
    else if !b.isDigit then some (b :: c :: cs)
    else if !c.isDigit then if a = '0' then none else some (c :: cs)
    else if a = '1' ∨ (a = '2' ∧ b ≤ '5') then some cs
    else none
  | [a, b] =>
    if !a.isDigit then none
    else if !b.isDigit then some [b]
    else if a = '0' then none
    else some []
  | [a] => if a.isDigit then some [] else none
  | [] => none

/-- Drop numbers that are separated by full stops. -/
def dropOctets? : Nat → List Char → Option (List Char)
  | 0, cs => some cs
  | 1, cs => dropOctet? cs
  | n + 1, cs =>
    match dropOctet? cs with
    | some ('.' :: rest) => dropOctets? n rest
    | _ => none

/-- Drop the name of a host: an address in brackets, four numbers, or a name, which may be empty. -/
def dropHost? (cs : List Char) : Option (List Char) :=
  match cs with
  | '[' :: rest =>
    match rest.dropWhile (· != ']') with
    | _ :: rest => some rest
    | [] => none
  | cs => (dropOctets? 4 cs).or (some (dropPart (fun _ => false) cs))

/-- Drop the number of a port, which fits into 31 bits. -/
def dropPort? (cs : List Char) : Option (List Char) :=
  let (digits, rest) := cs.span Char.isDigit
  if digits.isEmpty || digits.foldl (fun n d => n * 10 + (d.toNat - 0x30)) 0 ≥ 0x80000000 then none
  else some rest

/-- Drop an authority: an optional user before an at sign, a host, and an optional port. -/
def dropAuthority? (cs : List Char) : Option (List Char) := do
  let server :=
    match dropPart (· == ':') cs with
    | '@' :: rest => rest
    | _ => cs
  match ← dropHost? server with
  | ':' :: rest => dropPort? rest
  | rest => some rest

/-- Drop an optional query and an optional fragment. -/
def dropQuery (cs : List Char) : List Char :=
  let isInner := fun c : Char => c == ':' || c == '@' || c == '/' || c == '?'
  let afterQuery :=
    match cs with
    | '?' :: rest => dropPart isInner rest
    | cs => cs
  match afterQuery with
  | '#' :: rest => dropPart (fun c => isInner c || c == '[' || c == ']') rest
  | cs => cs

/-- What follows a scheme and its colon. -/
def afterScheme? : List Char → Option (List Char)
  | [] => none
  | c :: cs =>
    if !c.isAlpha then none
    else
      match cs.dropWhile fun c => c.isAlphanum || c == '+' || c == '-' || c == '.' with
      | ':' :: rest => some rest
      | _ => none

/-- Drop an authority and the path after it, or a path alone, of which the first part may have no
colon if the reference is relative. -/
def dropPlace? (relative : Bool) (cs : List Char) : Option (List Char) :=
  match cs with
  | '/' :: '/' :: rest =>
    (dropAuthority? rest).map fun
      | '/' :: rest => dropPath ('/' :: rest)
      | rest => rest
  | '/' :: _ => some (dropPath cs)
  | cs =>
    if !relative then some (dropPath cs)
    else
      match dropPart (· == '@') cs with
      | '/' :: rest => some (dropPath ('/' :: rest))
      | rest => some rest

/-- The text after a scheme, if any, is complete. -/
def isComplete (relative : Bool) (cs : List Char) : Bool :=
  match dropPlace? relative cs with
  | some rest => (dropQuery rest).isEmpty
  | none => false

/-- The kind of reference that a text is. -/
def ofChars? (cs : List Char) : Option UriReference :=
  if (afterScheme? cs).any (isComplete false) then some .absolute
  else if isComplete true cs then some .relative
  else none

example : ofChars? "http://x:80/a?b#c".toList = some .absolute ∧
    ofChars? "rel/path".toList = some .relative ∧ ofChars? "http://x:p/".toList = none ∧
    ofChars? "a b".toList = none ∧ ofChars? "http://x/%zz".toList = none := by decide +kernel

end UriReference

end RegisterMap.Markup
