import RegisterMap.Markup.Definitions
import RegisterMap.Markup.Lexeme

/-!
# Contents of elements

An element can be said to contain nothing, anything, text mixed with some elements, or groups of
elements. In a group the items are all separated by commas or all by bars; an item is the name of an
element or another group, and a mark behind it says how often it may occur.
-/

namespace RegisterMap.Markup

/-- What may come next in a group. -/
inductive GroupPlace where
  | item
  /-- A separator, the end of the group, or directly behind an item a mark of occurrence. -/
  | separator (behindItem : Bool)
deriving DecidableEq, Repr

/-- The mark says how often an item may occur. -/
def marksOccurrence (c : Char) : Bool :=
  c == '?' || c == '*' || c == '+'

/-- Read to the end of the outermost group, given the separators of the open groups, innermost
first. A group has no separator until the first one is read. -/
def groupsFrom : GroupPlace → List (Option Char) → List Lexeme → Option (List Lexeme)
  | .item, groups, .space :: ls => groupsFrom .item groups ls
  | .item, groups, .word cs :: ls =>
    if isName cs then groupsFrom (.separator true) groups ls else none
  | .item, groups, .mark c :: ls =>
    if c = '(' then groupsFrom .item (none :: groups) ls else none
  | .separator behindItem, [], .mark c :: ls =>
    if behindItem && marksOccurrence c then some ls else some (.mark c :: ls)
  | .separator _, [], ls => some ls
  | .separator _, groups, .space :: ls => groupsFrom (.separator false) groups ls
  | .separator behindItem, separator :: groups, .mark c :: ls =>
    if behindItem && marksOccurrence c then groupsFrom (.separator false) (separator :: groups) ls
    else if c = ')' then groupsFrom (.separator true) groups ls
    else if (c = ',' ∨ c = '|') ∧ separator.all (· == c) then
      groupsFrom .item (some c :: groups) ls
    else none
  | _, _, _ => none

/-- Read to the end of a group of text and elements. Before each element there is a bar, and behind
the group an asterisk. -/
def mixtureFrom : GroupPlace → List Lexeme → Option (List Lexeme)
  | place, .space :: ls => mixtureFrom place ls
  | .item, .word cs :: ls => if isName cs then mixtureFrom (.separator true) ls else none
  | .separator _, .mark '|' :: ls => mixtureFrom .item ls
  | .separator _, .mark ')' :: .mark '*' :: ls => some ls
  | _, _ => none

/-- Read what an element may contain. -/
def contentKind? : List Lexeme → Option (ContentKind × List Lexeme)
  | .word cs :: ls =>
    match String.ofList cs with
    | "EMPTY" | "ANY" => some (.text, ls)
    | _ => none
  | .mark '(' :: ls =>
    match Lexeme.skipSpaces ls with
    | .mark '#' :: .word cs :: ls =>
      if String.ofList cs ≠ "PCDATA" then none
      else
        match Lexeme.skipSpaces ls with
        | .mark ')' :: .mark '*' :: ls | .mark ')' :: ls => some (.text, ls)
        | ls => (mixtureFrom (.separator true) ls).map (.text, ·)
    | ls => (groupsFrom .item [none] ls).map (.elements, ·)
  | _ => none

end RegisterMap.Markup
