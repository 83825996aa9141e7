import Mathlib.Data.List.Basic
import RegisterMap.Proofs.Paths

/-!
# Paths as free sequences of names

A path is made from texts, lists of texts and paths that were made before (`NodePath.Made`). These
are the usable paths, so the parts of a path are any names, none empty and none with a separator
(`NodePath.made_iff`). Making paths one after the other and joining them amounts to making one path
from all arguments, and a path is determined by its text (`NodePath.joins_freely`).
-/

namespace RegisterMap.NodePath

variable {args xs ys zs : List Argument} {p q r : NodePath}

theorem eq_of_parts (h : p.parts = q.parts) : p = q := by
  cases p
  cases q
  exact congrArg mk h

theorem ofArguments_eq_ok_iff :
    ofArguments args = .ok p ↔
      "" ∉ args.flatMap Argument.parts ∧ p = ⟨args.flatMap Argument.parts⟩ := by
  rw [ofArguments_eq]
  constructor
  · intro h
    split at h
    · cases h
    · next hblank =>
      cases h
      exact ⟨hblank, rfl⟩
  · rintro ⟨hblank, rfl⟩
    exact if_neg hblank

/-! ### Paths that are made -/

/-- The path is made from texts, lists of texts and paths that are made themselves. -/
inductive Made : NodePath → Prop
  | intro {args : List Argument} {p : NodePath} (paths : ∀ q, .path q ∈ args → Made q)
      (accepted : ofArguments args = .ok p) : Made p

/-- The arguments, of which all paths are made themselves, are accepted and give the path. -/
structure Makes (args : List Argument) (p : NodePath) : Prop where
  paths : ∀ q, .path q ∈ args → Made q
  accepted : ofArguments args = .ok p

/-- What usable paths and texts contribute does not have to be split again. -/
theorem Argument.split_of_mem_parts {a : Argument} (usable : ∀ q, a = .path q → q.Usable)
    {part : String} (h : part ∈ a.parts) : split part = [part] := by
  cases a with
  | text s => exact split_of_mem_split h
  | list ss =>
      obtain ⟨s, -, hpart⟩ := List.mem_flatMap.1 h
      exact split_of_mem_split hpart
  | path q => exact (usable q rfl part h).2

theorem Made.usable (h : p.Made) : p.Usable := by
  induction h with
  | intro paths accepted ih =>
      obtain ⟨hblank, rfl⟩ := ofArguments_eq_ok_iff.1 accepted
      intro part hpart
      obtain ⟨a, ha, hparta⟩ := List.mem_flatMap.1 hpart
      refine ⟨fun hempty => hblank (hempty ▸ hpart), ?_⟩
      exact Argument.split_of_mem_parts (fun q hq => ih q (hq ▸ ha)) hparta

theorem Makes.made (h : Makes args p) : p.Made :=
  .intro h.paths h.accepted

theorem Makes.usable (h : Makes args p) : p.Usable :=
  h.made.usable

/-- A usable path is made from its parts. -/
theorem Usable.makes (h : p.Usable) : Makes (p.parts.map .text) p := by
  refine ⟨fun q hq => ?_, ?_⟩
  · obtain ⟨part, -, hpart⟩ := List.mem_map.1 hq
    cases hpart
  · rw [ofArguments_eq_ok_iff, h.parts_texts]
    exact ⟨fun hempty => (h "" hempty).1 rfl, rfl⟩

/-- Any names, none empty and none with a separator, are the parts of a path. -/
theorem made_iff : p.Made ↔ ∀ part ∈ p.parts, part ≠ "" ∧ separator ∉ part.toList := by
  constructor
  · intro made part hpart
    obtain ⟨hne, hsplit⟩ := made.usable part hpart
    exact ⟨hne, not_mem_separator_of_mem_split (hsplit ▸ List.mem_singleton_self part)⟩
  · intro plain
    have usable : p.Usable := fun part hpart =>
      ⟨(plain part hpart).1, split_eq_singleton (plain part hpart).2⟩
    exact usable.makes.made

/-! ### Joining -/

/-- A usable path is continued by exactly the arguments that make a path. -/
theorem Usable.join_eq_ok (hp : p.Usable) (hq : ofArguments ys = .ok q) :
    p.join ys = .ok (p ++ q) := by
  obtain ⟨hblank, rfl⟩ := ofArguments_eq_ok_iff.1 hq
  have hparts : (p.parts.map Argument.text ++ ys).flatMap Argument.parts =
      p.parts ++ ys.flatMap Argument.parts := by
    rw [List.flatMap_append, hp.parts_texts]
  rw [join, ofArguments_eq_ok_iff, hparts]
  refine ⟨fun hmem => ?_, rfl⟩
  rcases List.mem_append.1 hmem with hmem | hmem
  · exact (hp "" hmem).1 rfl
  · exact hblank hmem

theorem Makes.append (hp : Makes xs p) (hq : Makes ys q) : Makes (xs ++ ys) (p ++ q) := by
  refine ⟨fun b hb => ?_, ?_⟩
  · rcases List.mem_append.1 hb with hb | hb
    · exact hp.paths b hb
    · exact hq.paths b hb
  · obtain ⟨hblankp, rfl⟩ := ofArguments_eq_ok_iff.1 hp.accepted
    obtain ⟨hblankq, rfl⟩ := ofArguments_eq_ok_iff.1 hq.accepted
    rw [ofArguments_eq_ok_iff, List.flatMap_append, List.mem_append, not_or]
    exact ⟨⟨hblankp, hblankq⟩, rfl⟩

/-- A path as the only argument makes itself. -/
theorem Made.makes (h : q.Made) : Makes [.path q] q := by
  refine ⟨fun b hb => ?_, ?_⟩
  · cases List.mem_singleton.1 hb
    exact h
  · rw [ofArguments_eq_ok_iff, List.flatMap_singleton]
    exact ⟨fun hempty => (h.usable "" hempty).1 rfl, rfl⟩

/-- A path with two parts at least is its parent, continued by its name. -/
theorem Usable.parent_join_name (h : p.Usable) (long : 2 ≤ p.parts.length) :
    ∃ parent name, p.parent? = some parent ∧ p.name? = some name ∧
      parent.join [.text name] = .ok p := by
  have ne : p.parts ≠ [] := List.ne_nil_of_length_pos (by omega)
  have hparent : p.parent? = some ⟨p.parts.dropLast⟩ := if_neg (by omega)
  have hname : p.name? = some (p.parts.getLast ne) := List.getLast?_eq_some_getLast ne
  have usable : Usable ⟨p.parts.dropLast⟩ := fun part hpart =>
    h part ((List.dropLast_subset p.parts) hpart)
  have hlast := h (p.parts.getLast ne) (List.getLast_mem ne)
  have haccepted : ofArguments [.text (p.parts.getLast ne)] = .ok ⟨[p.parts.getLast ne]⟩ := by
    rw [ofArguments_eq_ok_iff, List.flatMap_singleton]
    change "" ∉ split (p.parts.getLast ne) ∧ _ = NodePath.mk (split (p.parts.getLast ne))
    rw [hlast.2, List.mem_singleton]
    exact ⟨fun hempty => hlast.1 hempty.symm, rfl⟩
  refine ⟨_, _, hparent, hname, ?_⟩
  rw [usable.join_eq_ok haccepted]
  exact congrArg Except.ok (eq_of_parts (List.dropLast_append_getLast ne))

/-! ### Texts of paths -/

theorem toList_toString (p : NodePath) :
    (toString p).toList = [separator].intercalate (p.parts.map String.toList) :=
  String.toList_intercalate

/-- The text of a path that is not empty is split into the parts of the path. -/
theorem Made.split_toString (h : p.Made) (ne : p.parts ≠ []) : split (toString p) = p.parts :=
  Text.pieces_eq_of_toList p.toList_toString ne fun part hpart => (made_iff.1 h part hpart).2

theorem Made.makes_toString (h : p.Made) (ne : p.parts ≠ []) : Makes [.text (toString p)] p := by
  refine ⟨fun q hq => ?_, ?_⟩
  · cases List.mem_singleton.1 hq
  rw [ofArguments_eq_ok_iff, List.flatMap_singleton]
  change "" ∉ split (toString p) ∧ p = ⟨split (toString p)⟩
  rw [h.split_toString ne]
  exact ⟨fun hempty => (h.usable "" hempty).1 rfl, rfl⟩

/-- Only the empty path has an empty text. -/
theorem Made.toString_eq_empty_iff (h : p.Made) : toString p = "" ↔ p.parts = [] := by
  constructor
  · intro htext
    by_contra ne
    have hsplit : p.parts = [""] := by
      rw [← h.split_toString ne, htext]
      rfl
    exact (h.usable "" (hsplit ▸ List.mem_singleton_self "")).1 rfl
  · intro hparts
    rw [eq_of_parts (q := ⟨[]⟩) hparts]
    rfl

/-- A path is determined by its text. -/
theorem Made.toString_inj (hp : p.Made) (hq : q.Made) : toString p = toString q ↔ p = q := by
  constructor
  · intro htext
    apply eq_of_parts
    by_cases hparts : p.parts = []
    · rw [hparts, eq_comm, ← hq.toString_eq_empty_iff, ← htext, hp.toString_eq_empty_iff, hparts]
    · have hqparts : q.parts ≠ [] := by
        rwa [Ne, ← hq.toString_eq_empty_iff, ← htext, hp.toString_eq_empty_iff]
      rw [← hp.split_toString hparts, ← hq.split_toString hqparts, htext]
  · exact congrArg _

theorem isText_iff {s : String} : p.isText s = true ↔
    s.toList = [separator].intercalate (p.parts.map String.toList) := by
  rw [isText, beq_iff_eq, ← String.toList_inj, toList_toString]
  exact eq_comm

/-- Paths are free sequences of names. For paths made from any arguments that are accepted: the
parts of a path are not empty and contain no separator; joining arguments to a path makes the path
from all arguments, and joining is associative; the text of a path that is not empty makes the path
again, and so does the parent continued by the name; paths are equal if their texts are, and the
text is the parts with separators between them. -/
theorem joins_freely (hp : Makes xs p) (hq : Makes ys q) (hr : Makes zs r) :
    (∀ part ∈ p.parts, part ≠ "" ∧ separator ∉ part.toList) ∧
    (p.join ys = ofArguments (xs ++ ys) ∧ p.join ys = .ok (p ++ q)) ∧
    ((p.join ys).bind (·.join zs) = (q.join zs).bind (fun qr => p.join [.path qr]) ∧
      (p.join ys).bind (·.join zs) = p.join (ys ++ zs) ∧
      (p.join ys).bind (·.join zs) = .ok (p ++ q ++ r)) ∧
    (p.parts ≠ [] → ofArguments [.text (toString p)] = .ok p) ∧
    (2 ≤ p.parts.length → ∃ parent name, p.parent? = some parent ∧ p.name? = some name ∧
      parent.join [.text name] = .ok p) ∧
    (p = q ↔ toString p = toString q) ∧
    ∀ s, p.isText s = true ↔ s.toList = [separator].intercalate (p.parts.map String.toList) := by
  have hpq : p.join ys = .ok (p ++ q) := hp.usable.join_eq_ok hq.accepted
  have hqr : q.join zs = .ok (q ++ r) := hq.usable.join_eq_ok hr.accepted
  have hleft : (p.join ys).bind (·.join zs) = .ok (p ++ q ++ r) := by
    rw [hpq]
    exact (hp.append hq).usable.join_eq_ok hr.accepted
  have hassoc : p ++ q ++ r = p ++ (q ++ r) := eq_of_parts (List.append_assoc _ _ _)
  have hright : (q.join zs).bind (fun qr => p.join [.path qr]) = .ok (p ++ q ++ r) := by
    rw [hqr, hassoc]
    exact hp.usable.join_eq_ok (hq.append hr).made.makes.accepted
  have hflat : p.join (ys ++ zs) = .ok (p ++ q ++ r) := by
    rw [hassoc]
    exact hp.usable.join_eq_ok (hq.append hr).accepted
  refine ⟨made_iff.1 hp.made, ⟨?_, hpq⟩, ⟨?_, ?_, hleft⟩, ?_, hp.usable.parent_join_name, ?_, ?_⟩
  · rw [hpq, (hp.append hq).accepted]
  · rw [hleft, hright]
  · rw [hleft, hflat]
  · intro ne
    exact (hp.made.makes_toString ne).accepted
  · exact (hp.made.toString_inj hq.made).symm
  · intro s
    exact isText_iff

/-- A text with a separator, continued by a list and a path, and then by one more name. -/
theorem joins_freely_nested :
    ofArguments [.text "UART0/CONFIG"] = .ok ⟨["UART0", "CONFIG"]⟩ ∧
      (NodePath.mk ["UART0", "CONFIG"]).join [.list ["MODE"], .path ⟨["A", "B"]⟩] =
        ofArguments [.text "UART0/CONFIG", .list ["MODE"], .path ⟨["A", "B"]⟩] ∧
      ((NodePath.mk ["UART0", "CONFIG"]).join [.list ["MODE"], .path ⟨["A", "B"]⟩]).bind
        (·.join [.text "X/Y"]) = .ok ⟨["UART0", "CONFIG", "MODE", "A", "B", "X", "Y"]⟩ ∧
      (NodePath.mk ["UART0", "CONFIG"]).isText "UART0/CONFIG" = true := by
  have made : Made ⟨["A", "B"]⟩ := made_iff.2 (by decide +kernel)
  have hp : Makes [.text "UART0/CONFIG"] ⟨["UART0", "CONFIG"]⟩ :=
    ⟨by simp, ofArguments_eq_ok_iff.2 (by decide +kernel)⟩
  have hq : Makes [.list ["MODE"], .path ⟨["A", "B"]⟩] ⟨["MODE", "A", "B"]⟩ :=
    ⟨by simpa using made, ofArguments_eq_ok_iff.2 (by decide +kernel)⟩
  have hr : Makes [.text "X/Y"] ⟨["X", "Y"]⟩ :=
    ⟨by simp, ofArguments_eq_ok_iff.2 (by decide +kernel)⟩
  obtain ⟨-, ⟨hjoin, -⟩, ⟨-, -, hall⟩, -, -, -, htext⟩ := joins_freely hp hq hr
  exact ⟨hp.accepted, hjoin, hall, (htext _).2 (by decide +kernel)⟩

end RegisterMap.NodePath
