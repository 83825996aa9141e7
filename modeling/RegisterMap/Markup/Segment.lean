import RegisterMap.Markup.Character

/-!
# Segments of a document

A document is a sequence of segments: tags, comments, processing instructions, literal character
data and one document type declaration, with runs of character data between them. Where a segment
ends depends on its kind alone, except that a tag does not end inside a quoted value; so a document
is divided in one pass, before anything about its contents is known.
-/

namespace RegisterMap.Markup

/-- A piece of a document, without its delimiters. -/
inductive Segment where
  /-- Character data between two other segments. -/
  | text (raw : List Char)
  /-- A start or end tag. The line is that of its closing bracket. -/
  | tag (line : Nat) (raw : List Char)
  | comment
  | instruction (raw : List Char)
  | literal (raw : List Char)
  | doctype (raw : List Char)
deriving Repr

/-- What a reader of segments is inside of. -/
inductive Mode where
  | text
  | tag (quote : Option Char)
  | comment
  | instruction
  | literal
  /-- The document type declaration, inside or outside of its brackets. -/
  | doctype (bracketed : Bool)
  | doctypeQuote (bracketed : Bool) (quote : Char)
  | doctypeComment
  | doctypeInstruction
deriving DecidableEq, Repr

/-- The line after a character, given the line before it. -/
def nextLine (line : Nat) (c : Char) : Nat :=
  if c = '\n' then line + 1 else line

/-- A run of character data as a segment; an empty run is none. -/
def textSegment (acc : List Char) : List Segment :=
  if acc.isEmpty then [] else [.text acc.reverse]

/-- Divide the rest of a document, given what it begins in, the reversed characters of the segment
so far, and the line. The result is `none` when the document ends inside of markup or when a comment
contains two hyphens in a row. -/
def segmentsFrom : Mode → List Char → Nat → List Char → Option (List Segment)
  | .text, acc, _, [] => some (textSegment acc)
  | _, _, _, [] => none
  | .text, acc, line, '<' :: '!' :: '-' :: '-' :: cs =>
    (segmentsFrom .comment [] line cs).map (textSegment acc ++ ·)
  | .text, acc, line, '<' :: '!' :: '[' :: 'C' :: 'D' :: 'A' :: 'T' :: 'A' :: '[' :: cs =>
    (segmentsFrom .literal [] line cs).map (textSegment acc ++ ·)
  | .text, acc, line, '<' :: '!' :: 'D' :: 'O' :: 'C' :: 'T' :: 'Y' :: 'P' :: 'E' :: cs =>
    (segmentsFrom (.doctype false) [] line cs).map (textSegment acc ++ ·)
  | .text, acc, line, '<' :: '?' :: cs =>
    (segmentsFrom .instruction [] line cs).map (textSegment acc ++ ·)
  | .text, acc, line, '<' :: cs =>
    (segmentsFrom (.tag none) [] line cs).map (textSegment acc ++ ·)
  | .text, acc, line, c :: cs => segmentsFrom .text (c :: acc) (nextLine line c) cs
  | .tag none, acc, line, '>' :: cs =>
    (segmentsFrom .text [] line cs).map (.tag line acc.reverse :: ·)
  | .tag none, acc, line, c :: cs =>
    if c = '<' then none
    else if c = '"' ∨ c = '\'' then segmentsFrom (.tag (some c)) (c :: acc) line cs
    else segmentsFrom (.tag none) (c :: acc) (nextLine line c) cs
  | .tag (some q), acc, line, c :: cs =>
    segmentsFrom (.tag (if c = q then none else some q)) (c :: acc) (nextLine line c) cs
  | .comment, _, line, '-' :: '-' :: '>' :: cs =>
    (segmentsFrom .text [] line cs).map (.comment :: ·)
  | .comment, _, _, '-' :: '-' :: _ => none
  | .comment, acc, line, c :: cs => segmentsFrom .comment acc (nextLine line c) cs
  | .instruction, acc, line, '?' :: '>' :: cs =>
    (segmentsFrom .text [] line cs).map (.instruction acc.reverse :: ·)
  | .instruction, acc, line, c :: cs => segmentsFrom .instruction (c :: acc) (nextLine line c) cs
  | .literal, acc, line, ']' :: ']' :: '>' :: cs =>
    (segmentsFrom .text [] line cs).map (.literal acc.reverse :: ·)
  | .literal, acc, line, c :: cs => segmentsFrom .literal (c :: acc) (nextLine line c) cs
  | .doctype true, acc, line, '<' :: '!' :: '-' :: '-' :: cs =>
    segmentsFrom .doctypeComment ('-' :: '-' :: '!' :: '<' :: acc) line cs
  | .doctype true, acc, line, '<' :: '?' :: cs =>
    segmentsFrom .doctypeInstruction ('?' :: '<' :: acc) line cs
  | .doctype false, acc, line, '>' :: cs =>
    (segmentsFrom .text [] line cs).map (.doctype acc.reverse :: ·)
  | .doctype bracketed, acc, line, c :: cs =>
    if c = '"' ∨ c = '\'' then segmentsFrom (.doctypeQuote bracketed c) (c :: acc) line cs
    else if c = '[' then segmentsFrom (.doctype true) (c :: acc) line cs
    else if c = ']' then segmentsFrom (.doctype false) (c :: acc) line cs
    else segmentsFrom (.doctype bracketed) (c :: acc) (nextLine line c) cs
  | .doctypeQuote bracketed q, acc, line, c :: cs =>
    segmentsFrom (if c = q then .doctype bracketed else .doctypeQuote bracketed q) (c :: acc)
      (nextLine line c) cs
  | .doctypeComment, acc, line, '-' :: '-' :: '>' :: cs =>
    segmentsFrom (.doctype true) ('>' :: '-' :: '-' :: acc) line cs
  | .doctypeComment, acc, line, c :: cs =>
    segmentsFrom .doctypeComment (c :: acc) (nextLine line c) cs
  | .doctypeInstruction, acc, line, '?' :: '>' :: cs =>
    segmentsFrom (.doctype true) ('>' :: '?' :: acc) line cs
  | .doctypeInstruction, acc, line, c :: cs =>
    segmentsFrom .doctypeInstruction (c :: acc) (nextLine line c) cs

/-- The segments of a document. -/
def segments (cs : List Char) : Option (List Segment) :=
  segmentsFrom .text [] 1 cs

end RegisterMap.Markup
