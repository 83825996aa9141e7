import Mathlib.Data.List.Pairwise
import RegisterMap.Extent

/-!
# Conflicts between extents

Two extents conflict if they share an address and the earlier one does not admit the later one.
`conflictsBehind` compares every extent with all those before it. The sweep, which forgets an extent
as soon as its end is passed, reports exactly the same conflicts in the same order, because an
extent whose end is passed shares no address with what begins later.

The consequence for a scope that has been checked is `Extent.linked_of_intersects`: of two siblings
with a common address one is an alternate of the other.
-/

namespace RegisterMap.Extent

/-- The extents share an address, and the first one does not admit the second one. -/
def Conflicts (a b : Extent) : Prop :=
  a.range.Intersects b.range ∧ ¬ a.admits b

instance (a b : Extent) : Decidable (a.Conflicts b) :=
  decidable_of_iff
    (max a.range.start b.range.start < min a.range.stop b.range.stop ∧ ¬ a.admits b)
    (and_congr_left' AddressRange.intersects_iff.symm)

/-- The conflicts of extents, each with those before it in the list and with the ones in
`before`. -/
def conflictsBehind (before : List Extent) : List Extent → List Overlap
  | [] => []
  | e :: es =>
    (before.filter (·.Conflicts e)).map (·.overlap e) ++ conflictsBehind (before ++ [e]) es

/-- Of extents that begin no later than a nonempty one, the sweep keeps open the ones that share an
address with it. -/
theorem filter_stillOpen_eq {before : List Extent} {e : Extent}
    (starts : ∀ a ∈ before, a.range.start ≤ e.range.start)
    (nonempty : e.range.start < e.range.stop) :
    (stillOpen before e.range.start).filter (!·.admits e) = before.filter (·.Conflicts e) := by
  rw [stillOpen, List.filter_filter]
  apply List.filter_congr
  intro a ha
  have hstart := starts a ha
  have hshare : a.range.Intersects e.range ↔ e.range.start < a.range.stop := by
    rw [AddressRange.intersects_iff]
    omega
  by_cases hadmits : a.admits e
  · simp [Conflicts, hadmits]
  · simp [Conflicts, hadmits, hshare]

theorem stillOpen_stillOpen {extents : List Extent} {x y : Int} (h : x ≤ y) :
    stillOpen (stillOpen extents x) y = stillOpen extents y := by
  rw [stillOpen, stillOpen, List.filter_filter]
  apply List.filter_congr
  intro a _
  have : y < a.range.stop → x < a.range.stop := fun hy => by omega
  simpa using this

/-- The sweep needs to know only which of the extents before are still open at the next start. -/
theorem sweep_eq_conflictsBehind {active before es : List Extent}
    (opened : ∀ e ∈ es, stillOpen active e.range.start = stillOpen before e.range.start)
    (starts : ∀ a ∈ before, ∀ e ∈ es, a.range.start ≤ e.range.start)
    (sorted : es.Pairwise fun a b => a.range.start ≤ b.range.start)
    (nonempty : ∀ e ∈ es, e.range.start < e.range.stop) :
    sweep active es = conflictsBehind before es := by
  induction es generalizing active before with
  | nil => rfl
  | cons e es ih =>
      obtain ⟨hfirst, hsorted⟩ := List.pairwise_cons.1 sorted
      rw [List.forall_mem_cons] at opened nonempty
      have hbefore := fun a ha => List.forall_mem_cons.1 (starts a ha)
      rw [sweep, conflictsBehind, opened.1,
        filter_stillOpen_eq (fun a ha => (hbefore a ha).1) nonempty.1]
      congr 1
      apply ih
      · intro e' he'
        change List.filter _ (_ ++ _) = List.filter _ (_ ++ _)
        rw [List.filter_append, List.filter_append]
        congr 1
        exact stillOpen_stillOpen (hfirst e' he')
      · intro a ha e' he'
        rcases List.mem_append.1 ha with ha | ha
        · exact (hbefore a ha).2 e' he'
        · rw [List.mem_singleton.1 ha]
          exact hfirst e' he'
      · exact hsorted
      · exact nonempty.2

theorem conflictsBehind_eq_nil_iff {before es : List Extent} :
    conflictsBehind before es = [] ↔
      (∀ a ∈ before, ∀ e ∈ es, ¬ a.Conflicts e) ∧ es.Pairwise fun a b => ¬ a.Conflicts b := by
  induction es generalizing before with
  | nil => simp [conflictsBehind]
  | cons e es ih =>
      rw [conflictsBehind, List.append_eq_nil_iff, List.map_eq_nil_iff, ih, List.pairwise_cons]
      simp only [List.filter_eq_nil_iff, decide_eq_true_eq, List.forall_mem_append,
        List.forall_mem_singleton, List.forall_mem_cons]
      constructor
      · rintro ⟨hbefore, ⟨hlater, hfirst⟩, hes⟩
        exact ⟨fun a ha => ⟨hbefore a ha, hlater a ha⟩, hfirst, hes⟩
      · rintro ⟨hbefore, hfirst, hes⟩
        exact ⟨fun a ha => (hbefore a ha).1, ⟨fun a ha => (hbefore a ha).2, hfirst⟩, hes⟩

theorem mem_inOrder {extents : List Extent} {e : Extent} :
    e ∈ inOrder extents ↔ e ∈ extents ∧ e.range.start < e.range.stop := by
  simp [inOrder, List.mem_mergeSort, AddressRange.isEmpty]

theorem sorted_inOrder (extents : List Extent) :
    (inOrder extents).Pairwise fun a b => a.range.start ≤ b.range.start := by
  have hbefore : (inOrder extents).Pairwise fun a b => a.range.before b.range = true := by
    apply List.pairwise_mergeSort
    · exact fun _ _ _ => AddressRange.before_trans
    · exact fun a b => AddressRange.before_total a.range b.range
  refine hbefore.imp fun {a b} h => ?_
  rw [AddressRange.before_iff] at h
  omega

/-- The conflicts that are reported are those of all pairs, in the order of addresses. -/
theorem conflictsAmong_eq_conflictsBehind (extents : List Extent) :
    conflictsAmong extents = conflictsBehind [] (inOrder extents) :=
  sweep_eq_conflictsBehind (fun _ _ => rfl) nofun (sorted_inOrder extents)
    fun _ he => (mem_inOrder.1 he).2

theorem exists_of_mem_conflictsBehind {before es : List Extent} {o : Overlap}
    (ho : o ∈ conflictsBehind before es) :
    ∃ a ∈ before ++ es, ∃ e ∈ es, a.Conflicts e ∧ o = a.overlap e := by
  induction es generalizing before with
  | nil => cases ho
  | cons e es ih =>
      rw [conflictsBehind, List.mem_append, List.mem_map] at ho
      rcases ho with ⟨a, ha, rfl⟩ | ho
      · obtain ⟨ha, hconflict⟩ := List.mem_filter.1 ha
        exact ⟨a, List.mem_append_left _ ha, e, List.mem_cons_self, of_decide_eq_true hconflict,
          rfl⟩
      · obtain ⟨a, ha, e', he', h⟩ := ih ho
        rw [List.append_assoc, List.singleton_append] at ha
        exact ⟨a, ha, e', List.mem_cons_of_mem _ he', h⟩

/-- Every conflict that is reported is one of two of the extents. -/
theorem exists_of_mem_conflictsAmong {extents : List Extent} {o : Overlap}
    (ho : o ∈ conflictsAmong extents) :
    ∃ a ∈ inOrder extents, ∃ b ∈ inOrder extents, a.Conflicts b ∧ o = a.overlap b := by
  rw [conflictsAmong_eq_conflictsBehind] at ho
  exact exists_of_mem_conflictsBehind ho

/-- If no conflict is reported, siblings with a common address are alternates in one direction. -/
theorem linked_of_intersects {extents : List Extent} (h : conflictsAmong extents = [])
    {a b : Extent} (ha : a ∈ extents) (hb : b ∈ extents) (owners : a.owner ≠ b.owner)
    (shared : a.range.Intersects b.range) : b.name ∈ a.alternates ∨ a.name ∈ b.alternates := by
  rw [conflictsAmong_eq_conflictsBehind, conflictsBehind_eq_nil_iff] at h
  have hab := AddressRange.intersects_iff.1 shared
  have ha := mem_inOrder.2 ⟨ha, by omega⟩
  have hb := mem_inOrder.2 ⟨hb, by omega⟩
  let Allowed (a b : Extent) : Prop := a.owner ≠ b.owner → a.range.Intersects b.range →
    b.name ∈ a.alternates ∨ a.name ∈ b.alternates
  have symm : Std.Symm Allowed := by
    refine ⟨fun x y hxy howners hshared => ?_⟩
    obtain ⟨address, hy, hx⟩ := hshared
    exact (hxy howners.symm ⟨address, hx, hy⟩).symm
  have allowed : (inOrder extents).Pairwise Allowed := by
    refine h.2.imp fun {a b} hno howners hshared => ?_
    have hadmits : a.admits b := by
      by_contra hnot
      exact hno ⟨hshared, hnot⟩
    simp only [admits, Bool.or_eq_true, beq_iff_eq, decide_eq_true_eq] at hadmits
    exact .inl (hadmits.resolve_left howners)
  have reflexive : ∀ x ∈ inOrder extents, Allowed x x := fun x _ howners => absurd rfl howners
  exact allowed.forall_of_forall reflexive ha hb owners shared

end RegisterMap.Extent
