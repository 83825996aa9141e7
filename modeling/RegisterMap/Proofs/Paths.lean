import Mathlib.Data.List.Basic
import RegisterMap.NodePath.Read

/-!
# Usable paths

A path is usable if each of its parts is a name that contributes just itself. A usable path can be
continued by any name without an empty part, and only by such a name (`NodePath.enter_eq`).
-/

namespace RegisterMap

/-- What lies between separators contains none. -/
theorem eq_false_of_mem_splitOnP {α : Type} {p : α → Bool} {as piece : List α}
    (h : piece ∈ as.splitOnP p) {a : α} (ha : a ∈ piece) : p a = false := by
  induction as generalizing piece with
  | nil =>
      rw [List.splitOnP_nil, List.mem_singleton] at h
      rw [h] at ha
      cases ha
  | cons b as ih =>
      rw [List.splitOnP_cons_eq_if_modifyHead] at h
      split at h
      · rcases List.mem_cons.1 h with rfl | h
        · cases ha
        · exact ih h ha
      · next hb =>
        cases hpieces : as.splitOnP p with
        | nil => exact absurd hpieces (List.splitOnP_ne_nil p as)
        | cons first rest =>
            rw [hpieces] at h ih
            rcases List.mem_cons.1 h with rfl | h
            · rcases List.mem_cons.1 ha with rfl | ha
              · exact eq_false_of_ne_true hb
              · exact ih List.mem_cons_self ha
            · exact ih (List.mem_cons_of_mem first h) ha

/-- Texts without the separator are the pieces of what they are joined to. -/
theorem Text.pieces_join {separator : Char} {css : List (List Char)} (ne : css ≠ [])
    (plain : ∀ cs ∈ css, separator ∉ cs) :
    pieces separator (String.ofList ([separator].intercalate css)) = css.map String.ofList := by
  rw [pieces, String.toList_ofList]
  exact congrArg (List.map String.ofList) (List.splitOn_intercalate separator plain ne)

/-- Texts without the separator are the pieces of the text in which it stands between them. -/
theorem Text.pieces_eq_of_toList {separator : Char} {s : String} {names : List String}
    (joined : s.toList = [separator].intercalate (names.map String.toList)) (ne : names ≠ [])
    (plain : ∀ name ∈ names, separator ∉ name.toList) : pieces separator s = names := by
  have hid : String.ofList ∘ String.toList = id := funext fun _ => String.ofList_toList
  rw [← String.ofList_toList (s := s), joined,
    pieces_join (by simpa using ne) (List.forall_mem_map.2 plain), List.map_map, hid, List.map_id]

namespace NodePath

theorem split_eq_singleton {name : String} (plain : separator ∉ name.toList) :
    split name = [name] := by
  unfold split Text.pieces
  rw [List.splitOnP_eq_singleton, List.map_singleton, String.ofList_toList]
  intro c hc
  exact beq_eq_false_iff_ne.2 fun heq => plain (heq ▸ hc)

/-- A part of a name contains no separator. -/
theorem not_mem_separator_of_mem_split {name part : String} (h : part ∈ split name) :
    separator ∉ part.toList := by
  obtain ⟨cs, hcs, rfl⟩ := List.mem_map.1 h
  rw [String.toList_ofList]
  intro hmem
  exact ne_of_beq_false (eq_false_of_mem_splitOnP hcs hmem) rfl

/-- A part of a name does not have to be split again. -/
theorem split_of_mem_split {name part : String} (h : part ∈ split name) : split part = [part] :=
  split_eq_singleton (not_mem_separator_of_mem_split h)

/-- Every part of the path is a name that contributes just itself, and none is empty. -/
def Usable (p : NodePath) : Prop :=
  ∀ part ∈ p.parts, part ≠ "" ∧ split part = [part]

variable {p : NodePath} {name : String}

theorem usable_empty : Usable ⟨[]⟩ :=
  List.forall_mem_nil _

theorem Usable.child (h : p.Usable) (whole : "" ∉ split name) : (p.child name).Usable := by
  intro part hpart
  rcases List.mem_append.1 hpart with hpart | hpart
  · exact h part hpart
  · exact ⟨fun hempty => whole (hempty ▸ hpart), split_of_mem_split hpart⟩

theorem Usable.parts_texts (h : p.Usable) :
    (p.parts.map Argument.text).flatMap Argument.parts = p.parts := by
  rw [List.flatMap_map]
  change p.parts.flatMap split = p.parts
  rw [List.flatMap_congr fun part hpart => (h part hpart).2, List.flatMap_singleton']

theorem ofArguments_eq (args : List Argument) : ofArguments args =
    if "" ∈ args.flatMap Argument.parts then .error (.path args)
    else .ok ⟨args.flatMap Argument.parts⟩ := by
  have hany : (args.flatMap Argument.parts).any (·.isEmpty) ↔
      "" ∈ args.flatMap Argument.parts := by
    simp
  unfold ofArguments ofArguments?
  by_cases hblank : "" ∈ args.flatMap Argument.parts
  · simp only [hany.2 hblank, hblank, if_true]
  · simp only [mt hany.1 hblank, hblank, if_false, Bool.false_eq_true]

/-- A name that continues some path has no empty part. -/
theorem whole_of_enter {path : NodePath} (h : p.enter name = .ok path) : "" ∉ split name := by
  unfold enter join at h
  rw [ofArguments_eq] at h
  split at h
  · cases h
  · next hwhole =>
    rw [List.flatMap_append, List.mem_append, not_or] at hwhole
    simpa [Argument.parts] using hwhole.2

/-- A usable path is continued by exactly the names without an empty part. -/
theorem Usable.enter_eq (h : p.Usable) (name : String) : p.enter name =
    if "" ∈ split name then .error (.path (p.parts.map .text ++ [.text name]))
    else .ok (p.child name) := by
  have hparts : (p.parts.map Argument.text ++ [Argument.text name]).flatMap Argument.parts =
      p.parts ++ split name := by
    rw [List.flatMap_append, h.parts_texts, List.flatMap_singleton]
    rfl
  have hblank : "" ∈ p.parts ++ split name ↔ "" ∈ split name := by
    rw [List.mem_append, or_iff_right fun hmem => (h "" hmem).1 rfl]
  unfold enter join
  rw [ofArguments_eq, hparts]
  simp only [hblank]
  rfl

end NodePath

end RegisterMap
