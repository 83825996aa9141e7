import Mathlib
import RegisterMap.Draft.Placement
import RegisterMap.Proofs.Conflict

/-!
# The sweep against all pairs

An entry is an extent with its index in a list of extents. `Entry.Before` is the order in which the
sweep meets the entries: by start, then by end, and as they are listed where both agree. The sweep
finds every pair of entries that clash, each pair once, in the order of the later entry and then of
the earlier one. So the pair that is reported when conflicts are refused is the first one in this
order, and every pair is noted when conflicts are tolerated (`checkExtents_finds_clashes`).
-/

namespace RegisterMap

/-! ### Pairs in a list -/

section Pairs

variable {α : Type}

/-- The pairs of an item with one that stands before it, in the list or in `before`, for which a
test succeeds. -/
def pairsBehind (test : α → α → Bool) (before : List α) : List α → List (α × α)
  | [] => []
  | b :: bs => (before.filter (test · b)).map (·, b) ++ pairsBehind test (before ++ [b]) bs

variable {test : α → α → Bool} {lt : α → α → Prop} {before bs : List α}

theorem mem_pairsBehind_iff (asymm : ∀ a b, lt a b → ¬ lt b a)
    (sorted : (before ++ bs).Pairwise lt) {a b : α} :
    (a, b) ∈ pairsBehind test before bs ↔ a ∈ before ++ bs ∧ b ∈ bs ∧ lt a b ∧ test a b := by
  induction bs generalizing before with
  | nil => simp [pairsBehind]
  | cons c cs ih =>
      have hsorted : (before ++ [c] ++ cs).Pairwise lt := by simpa using sorted
      obtain ⟨-, htail, hcross⟩ := List.pairwise_append.1 sorted
      have hafter : ∀ x ∈ cs, lt c x := fun x hx => List.rel_of_pairwise_cons htail hx
      rw [pairsBehind, List.mem_append, ih hsorted]
      simp only [List.mem_map, List.mem_filter, Prod.mk.injEq, List.mem_append, List.mem_cons,
        List.not_mem_nil, or_false]
      constructor
      · rintro (⟨x, ⟨hx, htest⟩, rfl, rfl⟩ | ⟨ha, hb, h⟩)
        · exact ⟨.inl hx, .inl rfl, hcross x hx c List.mem_cons_self, htest⟩
        · exact ⟨or_assoc.1 ha, .inr hb, h⟩
      · rintro ⟨ha, rfl | hb, hlt, htest⟩
        · -- Nothing from `b` on stands before it.
          rcases ha with ha | rfl | ha
          · exact .inl ⟨a, ⟨ha, htest⟩, rfl, rfl⟩
          · exact absurd hlt (asymm a a hlt)
          · exact absurd hlt (asymm b a (hafter a ha))
        · exact .inr ⟨or_assoc.2 ha, hb, hlt, htest⟩

/-- The pairs come in the order of their second items, and of their first ones where the second
agree. -/
theorem pairwise_pairsBehind (asymm : ∀ a b, lt a b → ¬ lt b a)
    (sorted : (before ++ bs).Pairwise lt) :
    (pairsBehind test before bs).Pairwise fun p q =>
      lt p.2 q.2 ∨ p.2 = q.2 ∧ lt p.1 q.1 := by
  induction bs generalizing before with
  | nil => exact List.Pairwise.nil
  | cons b bs ih =>
      have hsorted : (before ++ [b] ++ bs).Pairwise lt := by simpa using sorted
      obtain ⟨hbefore, htail, -⟩ := List.pairwise_append.1 sorted
      rw [pairsBehind, List.pairwise_append]
      refine ⟨?_, ih hsorted, fun p hp q hq => ?_⟩
      · rw [List.pairwise_map]
        exact (hbefore.filter _).imp fun hlt => .inr ⟨rfl, hlt⟩
      · obtain ⟨a, -, rfl⟩ := List.mem_map.1 hp
        obtain ⟨-, hq, -⟩ := (mem_pairsBehind_iff asymm hsorted).1 hq
        exact .inl (List.rel_of_pairwise_cons htail hq)

end Pairs

/-! ### Order of entries -/

/-- A sort is stable: items of which neither goes first stay in order. -/
theorem pairwise_mergeSort_of_pairwise {α : Type} {le : α → α → Bool} {lt : α → α → Prop}
    (trans : ∀ a b c, le a b → le b c → le a c) (total : ∀ a b, (le a b || le b a) = true)
    {l : List α} (sorted : l.Pairwise lt) :
    (l.mergeSort le).Pairwise fun a b => le b a → lt a b := by
  induction l with
  | nil => simp
  | cons a l ih =>
      obtain ⟨hfirst, hrest⟩ := List.pairwise_cons.1 sorted
      obtain ⟨l₁, l₂, hcons, hl, hbefore⟩ := List.mergeSort_cons trans total a l
      have hafter : ∀ b ∈ l₂, lt a b := fun b hb => by
        have hmem : b ∈ l.mergeSort le := by simp [hl, hb]
        exact hfirst b (List.mem_mergeSort.1 hmem)
      have hsorted := ih hrest
      rw [hl, List.pairwise_append] at hsorted
      obtain ⟨hleft, hright, hcross⟩ := hsorted
      rw [hcons, List.pairwise_append, List.pairwise_cons]
      refine ⟨hleft, ⟨fun b hb _ => hafter b hb, hright⟩, fun b hb c hc hle => ?_⟩
      rcases List.mem_cons.1 hc with rfl | hc
      · exact absurd hle (by simpa using hbefore b hb)
      · exact hcross b hb c hc hle

/-- An extent with its index in a list. -/
abbrev Entry := Extent × Nat

namespace Entry

/-- The first entry comes before the second one in the order by start and end, in which entries that
agree in both keep the order of their indices. -/
def Before (e f : Entry) : Prop :=
  e.1.range.start < f.1.range.start ∨ e.1.range.start = f.1.range.start ∧
    (e.1.range.stop < f.1.range.stop ∨ e.1.range.stop = f.1.range.stop ∧ e.2 < f.2)

theorem Before.asymm {e f : Entry} (h : e.Before f) : ¬ f.Before e := by
  unfold Before at *
  omega

theorem Before.trans {e f g : Entry} (h : e.Before f) (h' : f.Before g) : e.Before g := by
  unfold Before at *
  omega

theorem eq_or_before {extents : List Extent} {e f : Entry} (he : e ∈ extents.zipIdx)
    (hf : f ∈ extents.zipIdx) : e = f ∨ e.Before f ∨ f.Before e := by
  by_cases hindex : e.2 = f.2
  · left
    have he := List.mk_mem_zipIdx_iff_getElem?.1 he
    have hf := List.mk_mem_zipIdx_iff_getElem?.1 hf
    rw [hindex, hf] at he
    exact Prod.ext (Option.some.inj he).symm hindex
  · right
    unfold Before
    omega

end Entry

namespace Extent

/-- The entries of the extents that hold an address, in the order of their addresses. -/
def entriesInOrder (extents : List Extent) : List Entry :=
  (extents.zipIdx.filter (!·.1.range.isEmpty)).mergeSort fun e f => e.1.range.before f.1.range

variable {extents : List Extent}

theorem mem_entriesInOrder {e : Entry} :
    e ∈ entriesInOrder extents ↔ e ∈ extents.zipIdx ∧ e.1.range.start < e.1.range.stop := by
  simp [entriesInOrder, AddressRange.isEmpty]

theorem map_entriesInOrder (extents : List Extent) :
    (entriesInOrder extents).map (·.1) = inOrder extents := by
  have hfilter : (extents.zipIdx.filter (!·.1.range.isEmpty)).map (·.1) =
      extents.filter (!·.range.isEmpty) := by
    have hmap := List.filter_map (f := Prod.fst) (p := (!·.range.isEmpty)) (l := extents.zipIdx)
    rw [List.zipIdx_map_fst] at hmap
    exact hmap.symm
  rw [entriesInOrder, inOrder, ← hfilter]
  exact List.map_mergeSort fun _ _ _ _ => rfl

theorem pairwise_entriesInOrder (extents : List Extent) :
    (entriesInOrder extents).Pairwise Entry.Before := by
  have hindices : extents.zipIdx.Pairwise fun e f => e.2 < f.2 := by
    rw [← List.pairwise_map (f := Prod.snd) (R := (· < ·)), List.zipIdx_map_snd]
    exact List.pairwise_lt_range'
  have trans : ∀ e f g : Entry, e.1.range.before f.1.range → f.1.range.before g.1.range →
      e.1.range.before g.1.range := fun _ _ _ => AddressRange.before_trans
  have total : ∀ e f : Entry, (e.1.range.before f.1.range || f.1.range.before e.1.range) = true :=
    fun e f => AddressRange.before_total e.1.range f.1.range
  have hsorted := List.pairwise_mergeSort trans total
    (extents.zipIdx.filter (!·.1.range.isEmpty))
  have hstable := pairwise_mergeSort_of_pairwise trans total
    (hindices.filter (!·.1.range.isEmpty))
  refine (hsorted.and hstable).imp fun {e f} h => ?_
  rw [AddressRange.before_iff, AddressRange.before_iff] at h
  unfold Entry.Before
  omega

/-! ### Conflicts as pairs of entries -/

theorem conflictsBehind_map (before es : List Entry) :
    conflictsBehind (before.map (·.1)) (es.map (·.1)) =
      (pairsBehind (fun e f => decide (e.1.Conflicts f.1)) before es).map fun p =>
        p.1.1.overlap p.2.1 := by
  induction es generalizing before with
  | nil => rfl
  | cons e es ih =>
      rw [List.map_cons, conflictsBehind, pairsBehind, List.map_append, ← ih]
      congr 1
      · rw [List.filter_map, List.map_map, List.map_map]
        rfl
      · rw [List.map_append, List.map_singleton]

/-- The pairs of entries whose conflicts the sweep finds. -/
def conflictPairs (extents : List Extent) : List (Entry × Entry) :=
  pairsBehind (fun e f => decide (e.1.Conflicts f.1)) [] (entriesInOrder extents)

theorem conflictsAmong_eq_map (extents : List Extent) :
    conflictsAmong extents = (conflictPairs extents).map fun p => p.1.1.overlap p.2.1 := by
  rw [conflictsAmong_eq_conflictsBehind, ← map_entriesInOrder]
  exact conflictsBehind_map [] _

/-! ### Clashes -/

/-- Neither of two siblings is an alternate of the other one, but the extents share an address. So
neither of the extents is empty. -/
structure Clash (a b : Extent) : Prop where
  owners : a.owner ≠ b.owner
  second_unlinked : b.name ∉ a.alternates
  first_unlinked : a.name ∉ b.alternates
  shared : a.range.Intersects b.range

theorem Clash.symm {a b : Extent} (h : a.Clash b) : b.Clash a :=
  have ⟨address, ha, hb⟩ := h.shared
  { owners := h.owners.symm, second_unlinked := h.first_unlinked
    first_unlinked := h.second_unlinked, shared := ⟨address, hb, ha⟩ }

/-- The two entries clash, and the first one comes before the second one. -/
structure ClashAmong (extents : List Extent) (e f : Entry) : Prop where
  first_mem : e ∈ extents.zipIdx
  second_mem : f ∈ extents.zipIdx
  before : e.Before f
  clash : e.1.Clash f.1

/-- The second entry is the earliest one that clashes with an earlier entry, and the first entry is
the earliest one with which it clashes. -/
structure FirstClash (extents : List Extent) (e f : Entry) : Prop extends
    ClashAmong extents e f where
  second_earliest : ∀ e' f', ClashAmong extents e' f' → f' = f ∨ f.Before f'
  first_earliest : ∀ e' ∈ extents.zipIdx, e'.1.Clash f.1 → e' = e ∨ e.Before e'

theorem ClashAmong.exists_clash {e f : Entry} (h : ClashAmong extents e f) :
    ∃ a ∈ extents, ∃ b ∈ extents, a.Clash b :=
  ⟨e.1, List.fst_mem_of_mem_zipIdx h.first_mem, f.1, List.fst_mem_of_mem_zipIdx h.second_mem,
    h.clash⟩

/-- Entries that clash do so in one order or the other. -/
theorem exists_clashAmong {a b : Extent} (ha : a ∈ extents) (hb : b ∈ extents) (h : a.Clash b) :
    ∃ e f, ClashAmong extents e f := by
  obtain ⟨i, hi⟩ := List.mem_iff_getElem?.1 ha
  obtain ⟨j, hj⟩ := List.mem_iff_getElem?.1 hb
  have he : (a, i) ∈ extents.zipIdx := List.mk_mem_zipIdx_iff_getElem?.2 hi
  have hf : (b, j) ∈ extents.zipIdx := List.mk_mem_zipIdx_iff_getElem?.2 hj
  rcases Entry.eq_or_before he hf with heq | hlt | hlt
  · exact absurd (congrArg (·.1.owner) heq) h.owners
  · exact ⟨_, _, he, hf, hlt, h⟩
  · exact ⟨_, _, hf, he, hlt, h.symm⟩

/-- There is at most one first clash. -/
theorem FirstClash.unique {e f e' f' : Entry} (h : FirstClash extents e f)
    (h' : FirstClash extents e' f') : e = e' ∧ f = f' := by
  have hsecond : f = f' := by
    rcases h.second_earliest e' f' h'.toClashAmong with heq | hlt
    · exact heq.symm
    · exact (h'.second_earliest e f h.toClashAmong).resolve_right hlt.asymm
  subst hsecond
  refine ⟨?_, rfl⟩
  rcases h.first_earliest e' h'.first_mem h'.clash with heq | hlt
  · exact heq.symm
  · exact (h'.first_earliest e h.first_mem h.clash).resolve_right hlt.asymm

/-- If alternates are mutual, the sweep finds the clashes. -/
theorem mem_conflictPairs_iff
    (symmetric : ∀ a ∈ extents, ∀ b ∈ extents, b.name ∈ a.alternates → a.name ∈ b.alternates)
    {e f : Entry} : (e, f) ∈ conflictPairs extents ↔ ClashAmong extents e f := by
  rw [conflictPairs, mem_pairsBehind_iff (fun _ _ => Entry.Before.asymm)
    (pairwise_entriesInOrder extents), List.nil_append, mem_entriesInOrder, mem_entriesInOrder,
    decide_eq_true_eq, Conflicts, admits, Bool.or_eq_true, beq_iff_eq, decide_eq_true_eq, not_or]
  constructor
  · rintro ⟨⟨he, -⟩, ⟨hf, -⟩, hlt, hshared, howner, hunlinked⟩
    refine ⟨he, hf, hlt, howner, hunlinked, fun hlinked => hunlinked ?_, hshared⟩
    exact symmetric _ (List.fst_mem_of_mem_zipIdx hf) _ (List.fst_mem_of_mem_zipIdx he) hlinked
  · rintro ⟨he, hf, hlt, howner, hunlinked, -, hshared⟩
    have hrange := AddressRange.intersects_iff.1 hshared
    exact ⟨⟨he, by omega⟩, ⟨hf, by omega⟩, hlt, hshared, howner, hunlinked⟩

theorem pairwise_conflictPairs (extents : List Extent) :
    (conflictPairs extents).Pairwise fun p q =>
      p.2.Before q.2 ∨ p.2 = q.2 ∧ p.1.Before q.1 :=
  pairwise_pairsBehind (fun _ _ => Entry.Before.asymm) (pairwise_entriesInOrder extents)

theorem nodup_conflictPairs (extents : List Extent) : (conflictPairs extents).Nodup := by
  refine (pairwise_conflictPairs extents).imp fun {p q} h heq => ?_
  subst heq
  rcases h with hlt | ⟨-, hlt⟩ <;> exact hlt.asymm hlt

/-- The pair that is found first is the first clash. -/
theorem firstClash_of_conflictPairs_eq_cons
    (symmetric : ∀ a ∈ extents, ∀ b ∈ extents, b.name ∈ a.alternates → a.name ∈ b.alternates)
    {e f : Entry} {rest : List (Entry × Entry)} (h : conflictPairs extents = (e, f) :: rest) :
    FirstClash extents e f := by
  have hclash : ClashAmong extents e f :=
    (mem_conflictPairs_iff symmetric).1 (h ▸ List.mem_cons_self)
  have hfirst : ∀ e' f', ClashAmong extents e' f' →
      (e', f') = (e, f) ∨ f.Before f' ∨ f = f' ∧ e.Before e' := fun e' f' h' => by
    have hmem := (mem_conflictPairs_iff symmetric).2 h'
    have hsorted := pairwise_conflictPairs extents
    rw [h] at hmem hsorted
    exact (List.mem_cons.1 hmem).imp_right (List.rel_of_pairwise_cons hsorted)
  refine ⟨hclash, fun e' f' h' => ?_, fun e' he' h' => ?_⟩
  · rcases hfirst e' f' h' with heq | hlt | ⟨heq, -⟩
    · exact .inl (congrArg Prod.snd heq)
    · exact .inr hlt
    · exact .inl heq.symm
  · rcases Entry.eq_or_before he' hclash.second_mem with rfl | hlt | hlt
    · exact absurd rfl h'.owners
    · rcases hfirst e' f ⟨he', hclash.second_mem, hlt, h'⟩ with heq | hlt | ⟨-, hlt⟩
      · exact .inl (congrArg Prod.fst heq)
      · exact absurd hlt hlt.asymm
      · exact .inr hlt
    · -- What comes after the second entry comes after the first one.
      exact .inr (hclash.before.trans hlt)

end Extent

open Extent

namespace Draft

variable {extents : List Extent}

theorem not_any_isTooLong (short : ∀ e ∈ extents, e.range.length < 2 ^ 63) :
    ¬ extents.any isTooLong := by
  intro h
  obtain ⟨e, he, hlong⟩ := List.any_eq_true.1 h
  have hlength := short e he
  have hlimit : AddressRange.maxLength < e.range.length := of_decide_eq_true hlong
  unfold AddressRange.maxLength at hlimit
  omega

theorem checkExtents_true (short : ∀ e ∈ extents, e.range.length < 2 ^ 63) :
    checkExtents true extents = Logged.noteAll ((conflictsAmong extents).map .overlap) :=
  if_neg (not_any_isTooLong short)

theorem checkExtents_false_of_eq_nil (short : ∀ e ∈ extents, e.range.length < 2 ^ 63)
    (h : conflictsAmong extents = []) : checkExtents false extents = pure () := by
  simp [checkExtents, not_any_isTooLong short, h]

theorem checkExtents_false_of_eq_cons (short : ∀ e ∈ extents, e.range.length < 2 ^ 63)
    {o : Overlap} {rest : List Overlap} (h : conflictsAmong extents = o :: rest) :
    checkExtents false extents = throw (.overlap o) := by
  simp [checkExtents, not_any_isTooLong short, h]

/-- Either there is no clash and nothing is reported, or the first clash is. -/
theorem noClash_or_firstClash (short : ∀ e ∈ extents, e.range.length < 2 ^ 63)
    (symmetric : ∀ a ∈ extents, ∀ b ∈ extents, b.name ∈ a.alternates → a.name ∈ b.alternates) :
    (¬ (∃ a ∈ extents, ∃ b ∈ extents, a.Clash b) ∧ checkExtents false extents = pure ()) ∨
      ∃ e f, FirstClash extents e f ∧
        (checkExtents false extents).result = .error (.overlap (e.1.overlap f.1)) := by
  have hconflicts := conflictsAmong_eq_map extents
  cases hpairs : conflictPairs extents with
  | nil =>
      rw [hpairs] at hconflicts
      refine .inl ⟨?_, checkExtents_false_of_eq_nil short hconflicts⟩
      rintro ⟨a, ha, b, hb, h⟩
      obtain ⟨e, f, h⟩ := exists_clashAmong ha hb h
      rw [← mem_conflictPairs_iff symmetric, hpairs] at h
      cases h
  | cons p rest =>
      rw [hpairs] at hconflicts
      refine .inr ⟨p.1, p.2, firstClash_of_conflictPairs_eq_cons symmetric hpairs, ?_⟩
      exact congrArg Logged.result (checkExtents_false_of_eq_cons short hconflicts)

/-- The check of extents of which each can be measured and whose alternates are mutual. It succeeds
with no remark if no two of them clash, else it fails with the first clash, which is named in the
order of addresses. If conflicts are to be tolerated it succeeds and warns of each clash once. -/
theorem checkExtents_finds_clashes (short : ∀ e ∈ extents, e.range.length < 2 ^ 63)
    (symmetric : ∀ a ∈ extents, ∀ b ∈ extents, b.name ∈ a.alternates → a.name ∈ b.alternates) :
    ((∃ o, (checkExtents false extents).result = .error (.overlap o)) ↔
      ∃ a ∈ extents, ∃ b ∈ extents, a.Clash b) ∧
    (¬ (∃ a ∈ extents, ∃ b ∈ extents, a.Clash b) → checkExtents false extents = pure ()) ∧
    (∀ o, (checkExtents false extents).result = .error (.overlap o) ↔
      ∃ e f, FirstClash extents e f ∧ o = e.1.overlap f.1) ∧
    (checkExtents true extents).result = .ok () ∧
    ∃ pairs : List (Entry × Entry), pairs.Nodup ∧
      (∀ e f, (e, f) ∈ pairs ↔ ClashAmong extents e f) ∧
      (checkExtents true extents).events = pairs.map (fun p => .overlap (p.1.1.overlap p.2.1)) ∧
      ∀ event ∈ (checkExtents true extents).events, event.level = .warning := by
  have hnoted : (checkExtents true extents).events =
      (conflictPairs extents).map fun p => .overlap (p.1.1.overlap p.2.1) := by
    rw [checkExtents_true short, conflictsAmong_eq_map, List.map_map]
    rfl
  have hrefused := noClash_or_firstClash short symmetric
  refine ⟨?_, ?_, ?_, ?_, conflictPairs extents, nodup_conflictPairs extents,
    fun _ _ => mem_conflictPairs_iff symmetric, hnoted, ?_⟩
  · rcases hrefused with ⟨hnone, hok⟩ | ⟨e, f, hfirst, herror⟩
    · rw [hok]
      exact iff_of_false nofun hnone
    · exact iff_of_true ⟨_, herror⟩ hfirst.exists_clash
  · intro hnone
    rcases hrefused with ⟨-, hok⟩ | ⟨e, f, hfirst, -⟩
    · exact hok
    · exact absurd hfirst.exists_clash hnone
  · intro o
    rcases hrefused with ⟨hnone, hok⟩ | ⟨e, f, hfirst, herror⟩
    · rw [hok]
      refine iff_of_false nofun ?_
      rintro ⟨e, f, h, -⟩
      exact hnone h.exists_clash
    · rw [herror]
      constructor
      · intro h
        cases h
        exact ⟨e, f, hfirst, rfl⟩
      · rintro ⟨e', f', h, rfl⟩
        obtain ⟨rfl, rfl⟩ := hfirst.unique h
        rfl
  · rw [checkExtents_true short, Logged.result_noteAll]
  · rw [hnoted]
    exact List.forall_mem_map.2 fun _ _ => rfl

/-- Extents with equal starts, one inside of another one, one that begins where another one ends,
and an empty one. -/
def crowdedExtents : List Extent :=
  [{ owner := 0, name := "A", path := ⟨["D", "A"]⟩, alternates := ∅, range := ⟨0, 16⟩ },
    { owner := 0, name := "A", path := ⟨["D", "A"]⟩, alternates := ∅, range := ⟨16, 20⟩ },
    { owner := 1, name := "B", path := ⟨["D", "B"]⟩, alternates := .ofList ["C"]
      range := ⟨0, 16⟩ },
    { owner := 2, name := "C", path := ⟨["D", "C"]⟩, alternates := .ofList ["B"]
      range := ⟨4, 20⟩ },
    { owner := 3, name := "E", path := ⟨["D", "E"]⟩, alternates := ∅, range := ⟨8, 8⟩ }]

/-- The clash of the first two of the crowded extents in the order of addresses. -/
def crowdedOverlap : Overlap :=
  { first := ⟨["D", "A"]⟩, firstRange := ⟨0, 16⟩, second := ⟨["D", "B"]⟩, secondRange := ⟨0, 16⟩ }

theorem checkExtents_finds_clashes_crowded :
    (∀ e ∈ crowdedExtents, e.range.length < 2 ^ 63) ∧
    (∀ a ∈ crowdedExtents, ∀ b ∈ crowdedExtents, b.name ∈ a.alternates → a.name ∈ b.alternates) ∧
    (∃ e f, FirstClash crowdedExtents e f ∧ crowdedOverlap = e.1.overlap f.1) ∧
    ∃ pairs : List (Entry × Entry), pairs.Nodup ∧ pairs.length = 3 ∧
      (∀ e f, (e, f) ∈ pairs ↔ ClashAmong crowdedExtents e f) := by
  have hshort : ∀ e ∈ crowdedExtents, e.range.length < 2 ^ 63 := by decide
  have hsymmetric : ∀ a ∈ crowdedExtents, ∀ b ∈ crowdedExtents,
      b.name ∈ a.alternates → a.name ∈ b.alternates := by decide
  have herror : (checkExtents false crowdedExtents).result = .error (.overlap crowdedOverlap) := by
    cbv
  have hcount : (checkExtents true crowdedExtents).events.length = 3 := by cbv
  obtain ⟨-, -, hfirst, -, pairs, hnodup, hmem, hevents, -⟩ :=
    checkExtents_finds_clashes hshort hsymmetric
  rw [hevents, List.length_map] at hcount
  exact ⟨hshort, hsymmetric, (hfirst _).1 herror, pairs, hnodup, hcount, hmem⟩

end Draft

end RegisterMap
