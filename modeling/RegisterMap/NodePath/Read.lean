import RegisterMap.Malformed
import RegisterMap.Position

/-!
# Making paths

The checked ways to make a path: from texts to be split, by joining to another path, from a dotted
reference as written in a document, and as a selection of the parts of another path.
-/

namespace RegisterMap.NodePath

/-- The path with the parts of all arguments in order. -/
def ofArguments (args : List Argument) : Except Malformed NodePath :=
  match ofArguments? args with
  | some p => .ok p
  | none => .error (.path args)

/-- The path that continues `p` by the parts of the arguments. -/
def join (p : NodePath) (args : List Argument) : Except Malformed NodePath :=
  ofArguments (p.parts.map .text ++ args)

/-- The path of the element called `name` inside the element at `p`. -/
def enter (p : NodePath) (name : String) : Except Malformed NodePath :=
  p.join [.text name]

/-- The path that a dotted reference such as `UART0.CONFIG` denotes. Blank space around the names is
ignored. -/
def ofReference (reference : String) : Except Malformed NodePath :=
  let names := (Text.pieces '.' reference).map Text.trim
  if names.any (·.isEmpty) then .error (.reference reference)
  else ofArguments (names.map .text)

/-- The path of the selected parts. -/
def select (p : NodePath) (s : Span) : Except Malformed NodePath :=
  match s.select? p.parts with
  | some parts => ofArguments (parts.map .text)
  | none => .error .zeroStep

theorem parts_eq_of_ofArguments {args : List Argument} {p : NodePath}
    (h : ofArguments args = .ok p) : p.parts = args.flatMap Argument.parts := by
  simp only [ofArguments, ofArguments?] at h
  split at h
  · next heq =>
    simp only [Option.ite_none_left_eq_some, Option.some.injEq] at heq
    obtain ⟨_, rfl⟩ := heq
    cases h
    rfl
  · cases h

end RegisterMap.NodePath
