import RegisterMap.Proofs.Components
import RegisterMap.Proofs.Lookup
import RegisterMap.Proofs.Loops

/-!
# Finding and uniting in any order

Finding a name takes two loops: one goes up from parent to parent until a name is its own parent,
the other one goes the same way once more and lets every name on it point to the representative.
Both end, after any operations, because parents are less deep (`Represents.ascend_ends`,
`Represents.shorten_ends`).

After any operations, names have the same representative if and only if they are connected by the
pairs that were united. Finding does not change that, and the groups are the classes of connected
names (`operations_partition`).
-/

namespace RegisterMap.DisjointSets

/-- The names are connected by the pairs that the operations unite. -/
def Connected (ops : List Operation) : String → String → Prop :=
  Relation.EqvGen fun x y => .union x y ∈ ops

/-! ### The loops of finding -/

/-- Go up to the parent of a name, unless the name is its own parent. -/
def ascend (s : DisjointSets) (name : String) : Option String :=
  if name = s.parent name then none else some (s.parent name)

/-- Let a name point to the representative and go on to the parent that it had, unless the name is
the representative. -/
def shorten (root : String) : DisjointSets × String → Option (DisjointSets × String)
  | (s, name) => if name = root then none else some (s.point name root, s.parent name)

/-- Letting a name point to its parent changes nothing. -/
theorem point_parent {s : DisjointSets} (nodup : s.names.Nodup) (name : String) :
    s.point name (s.parent name) = s := by
  have hentry : ∀ e ∈ s.parents, (if e.1 = name then (name, s.parent name) else e) = e := by
    intro e he
    split
    · next hname =>
      have hlookup : s.parents.lookup e.1 = some e.2 := by
        have h := lookup_map_of_nodup (f := fun e => e.2) nodup he
        rwa [List.map_id'] at h
      rw [← hname, parent, hlookup, Option.getD_some]
    · rfl
  rw [point, List.map_congr_left hentry, List.map_id']

/-- At the end of a way nothing is left to be shortened. -/
theorem shorten_ends_top {t : DisjointSets} {root : String} (nodup : t.names.Nodup)
    (top : t.parent root = root) :
    Ends (shorten root) (t, root)
      ([root].foldl (fun t passed => t.point passed root) t, root) := by
  have hpoint := point_parent nodup root
  rw [top] at hpoint
  rw [List.foldl_cons, List.foldl_nil, hpoint]
  exact .done (if_pos rfl)

namespace Represents

variable {s : DisjointSets} {rep : String → String} {depth : String → Nat}

theorem rep_parent (h : s.Represents rep depth) (a : String) : rep (s.parent a) = rep a := by
  by_cases hparent : s.parent a = a
  · rw [hparent]
  · exact (h.step a hparent).1

/-- Going up from any name ends at its representative. -/
theorem ascend_ends (h : s.Represents rep depth) (a : String) : Ends s.ascend a (rep a) := by
  have keeps (x y : String) (hx : rep x = rep a) (hstep : s.ascend x = some y) :
      rep y = rep a ∧ depth y < depth x := by
    unfold ascend at hstep
    split at hstep
    · cases hstep
    · next hparent =>
      cases hstep
      obtain ⟨hrep, hlt⟩ := h.step x (Ne.symm hparent)
      exact ⟨hrep.trans hx, hlt⟩
  obtain ⟨root, hends, hroot, hlast⟩ := loop_ends keeps rfl
  have hself : root = s.parent root := by
    unfold ascend at hlast
    split at hlast
    · next hself => exact hself
    · cases hlast
  rw [← hroot, h.top root hself.symm]
  exact hends

/-- Shortening the rest of a way, of which only names that are deeper have been passed, lets every
name on it point to the representative and ends there. -/
theorem shorten_ends (h : s.Represents rep depth) (nodup : s.names.Nodup) {steps : Nat}
    {name : String} (enough : s.names.countP (depth · < depth name) ≤ steps)
    (mem : name ∈ s.names) {t : DisjointSets} (names_eq : t.names = s.names)
    (ahead : ∀ x, depth x ≤ depth name → t.parent x = s.parent x) :
    Ends (shorten (rep name)) (t, name)
      ((s.climb steps name).foldl (fun t passed => t.point passed (rep name)) t, rep name) := by
  induction steps generalizing name t with
  | zero =>
      have hparent : s.parent name = name := by
        by_contra hne
        have := h.countP_parent_lt hne
        omega
      rw [climb, h.top name hparent]
      exact shorten_ends_top (names_eq ▸ nodup) ((ahead name (Nat.le_refl _)).trans hparent)
  | succ steps ih =>
      unfold climb
      by_cases hparent : s.parent name = name
      · rw [if_pos hparent, h.top name hparent]
        exact shorten_ends_top (names_eq ▸ nodup) ((ahead name (Nat.le_refl _)).trans hparent)
      · obtain ⟨hrep, hlt⟩ := h.step name hparent
        have hne : name ≠ rep name := by
          intro hname
          rw [hname] at hparent
          exact hparent (h.parent_rep name).1
        have hstep : shorten (rep name) (t, name) =
            some (t.point name (rep name), s.parent name) := by
          rw [shorten, if_neg hne, ahead name (Nat.le_refl _)]
        have hfewer := h.countP_parent_lt hparent
        have ahead' : ∀ x, depth x ≤ depth (s.parent name) →
            (t.point name (rep name)).parent x = s.parent x := by
          intro x hx
          have hxname : x ≠ name := by
            rintro rfl
            omega
          rw [parent_point (names_eq ▸ mem), if_neg hxname, ahead x (by omega)]
        have hrest := ih (by omega) (h.closed name mem)
          ((names_point t name (rep name)).trans names_eq) ahead'
        rw [hrep] at hrest
        rw [if_neg hparent, List.foldl_cons]
        exact .next hstep hrest

/-- Both loops of finding a name end, with the representative and the shortened way. -/
theorem find_ends (h : s.Represents rep depth) (nodup : s.names.Nodup) (name : String) :
    Ends (s.mention name).ascend ((s.mention name).parent name) (s.find name).1 ∧
      Ends (shorten (s.find name).1) (s.mention name, name)
        ((s.find name).2, (s.find name).1) := by
  have hmention := h.mention name
  have hroot : (s.mention name).root name = rep name := hmention.root_eq name
  have hname : name ∈ (s.mention name).names := mem_names_mention.2 (.inl rfl)
  constructor
  · rw [(h.find name).1, ← hmention.rep_parent name]
    exact hmention.ascend_ends _
  · have hends := hmention.shorten_ends (nodup_names_mention nodup name)
      (countP_le_length (s.mention name) depth name) hname rfl fun _ _ => rfl
    rw [← hroot] at hends
    exact hends

end Represents

/-! ### Any operations -/

/-- The partition after operations on the empty one. -/
def after (ops : List Operation) : DisjointSets :=
  ops.foldl apply ∅

/-- The sets of the partition are the classes of names that the operations connect. -/
structure Partitions (s : DisjointSets) (ops : List Operation) : Prop where
  /-- Both loops of finding a name end, with what finding gives. -/
  ends (a : String) : Ends (s.mention a).ascend ((s.mention a).parent a) (s.find a).1 ∧
    Ends (shorten (s.find a).1) (s.mention a, a) ((s.find a).2, (s.find a).1)
  /-- The name that is found is in the set. -/
  connected (a : String) : Connected ops a (s.find a).1
  /-- The same name is found for two names, one after the other, if they are connected. -/
  find_iff (a b : String) : (s.find a).1 = ((s.find a).2.find b).1 ↔ Connected ops a b
  /-- Finding a name changes what is found for no name. -/
  keeps (a b : String) : ((s.find a).2.find b).1 = (s.find b).1
  /-- Finding a name that is mentioned mentions no other one. -/
  names (a : String) (ha : a ∈ s.names) : (s.find a).2.names = s.names
  /-- No name is twice in the groups. -/
  nodup : (s.groups.1.flatMap (·.2)).Nodup
  /-- The names in the groups are those that the operations mention. -/
  mentioned (a : String) : a ∈ s.groups.1.flatMap (·.2) ↔ ∃ op ∈ ops, a ∈ op.names
  /-- No group is empty, and each is the group of the name that is found for its members. -/
  found (g : String × List String) (hg : g ∈ s.groups.1) : g.2 ≠ [] ∧ ∀ a ∈ g.2, (s.find a).1 = g.1
  /-- Names that are mentioned are in one group if they are connected. -/
  grouped (a b : String) : (∃ g ∈ s.groups.1, a ∈ g.2 ∧ b ∈ g.2) ↔
    (∃ op ∈ ops, a ∈ op.names) ∧ (∃ op ∈ ops, b ∈ op.names) ∧ Connected ops a b

/-- After any operations that find and unite names, finding ends and gives the same name for
connected names, and the groups are the classes of connected names. -/
theorem operations_partition (ops : List Operation) : (after ops).Partitions ops := by
  obtain ⟨rep, depth, h, hiff⟩ := exists_represents ops
  change (after ops).Represents rep depth at h
  have nodup : (after ops).names.Nodup := nodup_names_foldl_apply (s := ∅) List.nodup_nil ops
  have hnames (a : String) : a ∈ (after ops).names ↔ ∃ op ∈ ops, a ∈ op.names := by
    rw [after, mem_names_foldl_apply]
    exact or_iff_left List.not_mem_nil
  have hperm := flatMap_groups_perm (after ops)
  have hfind (a : String) : ((after ops).find a).1 = rep a := (h.find a).1
  have hagain (a b : String) : (((after ops).find a).2.find b).1 = rep b := ((h.find a).2.find b).1
  constructor
  case ends => exact h.find_ends nodup
  case connected =>
    intro a
    rw [hfind]
    exact (hiff a (rep a)).1 (h.rep_rep a).symm
  case find_iff =>
    intro a b
    rw [hfind, hagain]
    exact hiff a b
  case keeps =>
    intro a b
    rw [hfind, hagain]
  case names =>
    intro a ha
    rw [names_find, names_mention, if_pos ha]
  case nodup => exact hperm.nodup_iff.2 nodup
  case mentioned =>
    intro a
    rw [hperm.mem_iff, hnames]
  case found =>
    intro g hg
    refine ⟨ne_nil_of_mem_groups _ g hg, fun a ha => ?_⟩
    rw [hfind]
    exact ((h.groups_spec.2 g.1 a).1 ⟨g, hg, rfl, ha⟩).2
  case grouped =>
    intro a b
    rw [h.mem_groups_iff, hnames, hnames, hiff]
    rfl

/-- Names united in a row are in one group, and a name that was only found is alone. -/
example : (after [.union "A" "B", .find "E", .union "C" "D", .find "D", .union "D" "B"]).groups.1 =
    [("C", ["A", "B", "C", "D"]), ("E", ["E"])] := by
  decide +kernel

end RegisterMap.DisjointSets
