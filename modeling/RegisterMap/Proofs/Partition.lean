import Mathlib.Data.List.Nodup
import RegisterMap.DisjointSets

/-!
# Partitions of names

No name is mentioned twice in a partition that is built by finding and uniting, and each name that
is mentioned belongs to exactly one of the groups. For this it does not matter which parents the
names have.
-/

namespace RegisterMap.DisjointSets

/-- The names that are mentioned, in the order of first mention. -/
def names (s : DisjointSets) : List String :=
  s.parents.map (·.1)

/-- An operation that changes a partition. -/
inductive Operation where
  | find (name : String)
  | union (a b : String)

/-- The names that an operation mentions. -/
def Operation.names : Operation → List String
  | .find name => [name]
  | .union a b => [a, b]

/-- The partition after an operation. -/
def apply (s : DisjointSets) : Operation → DisjointSets
  | .find name => (s.find name).2
  | .union a b => s.union a b

/-- Uniting pairs of names is one way to apply operations. -/
theorem foldl_union_eq (pairs : List (String × String)) (s : DisjointSets) :
    pairs.foldl (fun s l => s.union l.1 l.2) s =
      (pairs.map fun l => Operation.union l.1 l.2).foldl apply s := by
  simp only [List.foldl_map, apply]

@[simp] theorem names_point (s : DisjointSets) (name parent : String) :
    (s.point name parent).names = s.names := by
  simp only [names, point, List.map_map]
  apply List.map_congr_left
  intro e _
  by_cases h : e.1 = name
  · simp [h]
  · simp [h]

theorem names_foldl_point (s : DisjointSets) (passed : List String) (root : String) :
    (passed.foldl (fun t name => t.point name root) s).names = s.names := by
  induction passed generalizing s with
  | nil => rfl
  | cons name passed ih => rw [List.foldl_cons, ih, names_point]

@[simp] theorem names_find (s : DisjointSets) (name : String) :
    (s.find name).2.names = (s.mention name).names :=
  names_foldl_point _ _ _

theorem lookup_isSome_iff_mem_names {s : DisjointSets} {name : String} :
    (s.parents.lookup name).isSome ↔ name ∈ s.names := by
  rw [List.lookup_isSome_iff, names, List.mem_map]
  exact exists_congr fun e => and_congr_right fun _ => beq_iff_eq.trans eq_comm

/-- A name is mentioned behind the others, unless it is mentioned already. -/
theorem names_mention (s : DisjointSets) (name : String) :
    (s.mention name).names = if name ∈ s.names then s.names else s.names ++ [name] := by
  unfold mention
  by_cases h : name ∈ s.names
  · rw [if_pos (lookup_isSome_iff_mem_names.2 h), if_pos h]
  · rw [if_neg (mt lookup_isSome_iff_mem_names.1 h), if_neg h, names, List.map_append]
    rfl

theorem nodup_names_mention {s : DisjointSets} (h : s.names.Nodup) (name : String) :
    (s.mention name).names.Nodup := by
  rw [names_mention]
  split
  · exact h
  · next hnew => exact h.append (List.nodup_singleton name) (by simpa using hnew)

/-- Uniting two names mentions them, as finding both does. -/
@[simp] theorem names_union (s : DisjointSets) (a b : String) :
    (s.union a b).names = ((s.mention a).mention b).names := by
  have hmention (s t : DisjointSets) (h : s.names = t.names) :
      (s.mention b).names = (t.mention b).names := by
    rw [names_mention, names_mention, h]
  have hfind : ((s.find a).2.find b).2.names = ((s.mention a).mention b).names := by
    rw [names_find]
    exact hmention _ _ (names_find s a)
  simp only [union]
  split
  · exact hfind
  · rw [names_point]
    exact hfind

theorem nodup_names_foldl_apply {s : DisjointSets} (h : s.names.Nodup) (ops : List Operation) :
    (ops.foldl apply s).names.Nodup := by
  induction ops generalizing s with
  | nil => exact h
  | cons op ops ih =>
      refine ih ?_
      cases op with
      | find name =>
          rw [apply, names_find]
          exact nodup_names_mention h name
      | union a b =>
          rw [apply, names_union]
          exact nodup_names_mention (nodup_names_mention h a) b

theorem nodup_names_foldl_union {s : DisjointSets} (h : s.names.Nodup)
    (pairs : List (String × String)) :
    (pairs.foldl (fun s l => s.union l.1 l.2) s).names.Nodup := by
  rw [foldl_union_eq]
  exact nodup_names_foldl_apply h _

theorem flatMap_addToGroup_perm (root name : String) (gs : List (String × List String)) :
    ((addToGroup root name gs).flatMap (·.2)).Perm (name :: gs.flatMap (·.2)) := by
  induction gs with
  | nil => exact List.Perm.refl _
  | cons g gs ih =>
      simp only [addToGroup]
      split
      · simp only [List.flatMap_cons, List.append_assoc]
        exact List.perm_middle
      · simp only [List.flatMap_cons]
        exact (ih.append_left g.2).trans List.perm_middle

theorem ne_nil_of_mem_addToGroup {root name : String} {gs : List (String × List String)}
    (h : ∀ g ∈ gs, g.2 ≠ []) : ∀ g ∈ addToGroup root name gs, g.2 ≠ [] := by
  induction gs with
  | nil => simp [addToGroup]
  | cons g gs ih =>
      rw [List.forall_mem_cons] at h
      unfold addToGroup
      split
      · exact List.forall_mem_cons.2 ⟨by simp, h.2⟩
      · exact List.forall_mem_cons.2 ⟨h.1, ih h.2⟩

/-- No group is empty. -/
theorem ne_nil_of_mem_groups (s : DisjointSets) : ∀ g ∈ s.groups.1, g.2 ≠ [] := by
  have collect (mentioned : List String) (gs : List (String × List String)) (t : DisjointSets)
      (h : ∀ g ∈ gs, g.2 ≠ []) : ∀ g ∈ (mentioned.foldl (fun state name =>
        (addToGroup (state.2.find name).1 name state.1, (state.2.find name).2)) (gs, t)).1,
        g.2 ≠ [] := by
    induction mentioned generalizing gs t with
    | nil => exact h
    | cons name mentioned ih => exact ih _ _ (ne_nil_of_mem_addToGroup h)
  exact collect (s.parents.map (·.1)) [] s (List.forall_mem_nil _)

/-- The names of all groups are the names that are mentioned. -/
theorem flatMap_groups_perm (s : DisjointSets) : (s.groups.1.flatMap (·.2)).Perm s.names := by
  have collect (mentioned : List String) (gs : List (String × List String)) (t : DisjointSets) :
      ((mentioned.foldl (fun state name =>
        (addToGroup (state.2.find name).1 name state.1, (state.2.find name).2)) (gs, t)).1.flatMap
          (·.2)).Perm (mentioned ++ gs.flatMap (·.2)) := by
    induction mentioned generalizing gs t with
    | nil => exact List.Perm.refl _
    | cons name mentioned ih =>
        have hname := flatMap_addToGroup_perm (t.find name).1 name gs
        exact (ih _ _).trans ((hname.append_left mentioned).trans List.perm_middle)
  simpa [groups, names] using collect (s.parents.map (·.1)) [] s

end RegisterMap.DisjointSets
