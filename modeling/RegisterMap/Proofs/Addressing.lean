import RegisterMap.Proofs.Placement

/-!
# Devices that can be placed

Whether the addresses of a device can be resolved is a matter of each of its peripherals for itself
(`Peripheral.Placeable`), and, unless conflicts are tolerated, of any two of them
(`Peripheral.ClearOf`). Neither depends on the order of the peripherals.
-/

namespace RegisterMap.Draft

/-! ### Checks -/

theorem checkExtents_eq_ok_iff {tolerant : Bool} {extents : List Extent} :
    (checkExtents tolerant extents).result = .ok () ↔
      (∀ e ∈ extents, ¬ e.isTooLong) ∧ (tolerant = false → Extent.conflictsAmong extents = []) := by
  unfold checkExtents
  split
  · next hlong =>
    obtain ⟨e, he, hlong⟩ := List.any_eq_true.1 hlong
    exact iff_of_false nofun fun h => h.1 e he hlong
  · next hshort =>
    have hshort : ∀ e ∈ extents, ¬ e.isTooLong := by simpa using hshort
    cases tolerant with
    | true => exact iff_of_true rfl ⟨hshort, nofun⟩
    | false =>
        rw [if_neg Bool.false_ne_true]
        cases hconflicts : Extent.conflictsAmong extents with
        | nil => exact iff_of_true rfl ⟨hshort, fun _ => rfl⟩
        | cons o os =>
            refine iff_of_false nofun fun h => ?_
            cases h.2 rfl

theorem checkGroups_eq_ok_iff {tolerant : Bool} {groups : List (List Extent)} :
    (checkGroups tolerant groups).result = .ok () ↔
      ∀ extents ∈ groups, (checkExtents tolerant extents).result = .ok () := by
  induction groups with
  | nil => exact iff_of_true rfl nofun
  | cons extents groups ih =>
      rw [checkGroups, Logged.bind_eq_ok_iff, List.forall_mem_cons, ← ih]
      constructor
      · rintro ⟨⟨⟩, hfirst, hrest⟩
        exact ⟨hfirst, hrest⟩
      · rintro ⟨hfirst, hrest⟩
        exact ⟨(), hfirst, hrest⟩

theorem Device.mem_levels_iff {d : Device} {e : Located} :
    e ∈ d.levels.flatten ↔ ∃ p ∈ d.peripherals,
      e ∈ (Member.levelsAll (d.path.child p.name) p.memberList).flatten := by
  unfold Device.levels
  generalize d.path = path
  induction d.peripherals with
  | nil => simp
  | cons p ps ih => rw [List.foldr_cons, mem_flatten_joinLevels, ih, List.exists_mem_cons_iff]

/-- The groups of siblings inside of a placed peripheral at a path. -/
def Peripheral.extentGroups (path : NodePath) (p : Peripheral) : List (List Extent) :=
  memberExtents path p.memberList ::
    (Member.levelsAll path p.memberList).flatten.filterMap fun
      | (_, .register _) => none
      | (path, .cluster _ ms) => some (memberExtents path ms)

theorem Device.mem_extentGroups_iff {d : Device} {extents : List Extent} :
    extents ∈ d.extentGroups ↔ extents = peripheralExtents d.path d.peripherals ∨
      ∃ p ∈ d.peripherals, extents ∈ p.extentGroups (d.path.child p.name) := by
  unfold Device.extentGroups Peripheral.extentGroups
  simp only [List.mem_append, List.mem_cons, List.mem_map, List.mem_filterMap,
    Device.mem_levels_iff]
  constructor
  · rintro ((h | ⟨p, hp, rfl⟩) | ⟨e, ⟨p, hp, he⟩, h⟩)
    · exact .inl h
    · exact .inr ⟨p, hp, .inl rfl⟩
    · exact .inr ⟨p, hp, .inr ⟨e, he, h⟩⟩
  · rintro (h | ⟨p, hp, rfl | ⟨e, he, h⟩⟩)
    · exact .inl (.inl h)
    · exact .inl (.inr ⟨p, hp, rfl⟩)
    · exact .inr ⟨e, ⟨p, hp, he⟩, h⟩

/-! ### Pairs of peripherals -/

/-- Two placed peripherals with different names share no address, unless the second one is an
alternate of the first one. -/
def Peripheral.ClearOf (p q : Peripheral) : Prop :=
  p.name ≠ q.name → q.name ∉ p.alternates →
    ∀ r ∈ p.ranges, ∀ s ∈ q.ranges, ¬ r.Intersects s

theorem mem_peripheralExtents_iff {path : NodePath} {ps : List Peripheral} {e : Extent} :
    e ∈ peripheralExtents path ps ↔ ∃ p, ps[e.owner]? = some p ∧ e.name = p.name ∧
      e.path = path.child p.name ∧ e.alternates = p.alternates ∧ e.range ∈ p.ranges := by
  unfold peripheralExtents
  rw [List.mem_flatMap]
  constructor
  · rintro ⟨⟨p, i⟩, hp, he⟩
    obtain ⟨r, hr, rfl⟩ := List.mem_map.1 he
    exact ⟨p, List.mk_mem_zipIdx_iff_getElem?.1 hp, rfl, rfl, rfl, hr⟩
  · rintro ⟨p, hp, hname, hpath, halternates, hrange⟩
    refine ⟨(p, e.owner), List.mk_mem_zipIdx_iff_getElem?.2 hp, List.mem_map.2 ⟨_, hrange, ?_⟩⟩
    obtain ⟨owner, name, path, alternates, range⟩ := e
    cases hname
    cases hpath
    cases halternates
    rfl

theorem forall_not_isTooLong_iff {path : NodePath} {ps : List Peripheral} :
    (∀ e ∈ peripheralExtents path ps, ¬ e.isTooLong) ↔
      ∀ p ∈ ps, ∀ r ∈ p.ranges, ¬ AddressRange.maxLength < r.length := by
  simp only [Extent.isTooLong, decide_eq_true_eq]
  constructor
  · intro h p hp r hr
    obtain ⟨i, hi⟩ := List.mem_iff_getElem?.1 hp
    exact h ⟨i, p.name, path.child p.name, p.alternates, r⟩
      (mem_peripheralExtents_iff.2 ⟨p, hi, rfl, rfl, rfl, hr⟩)
  · intro h e he
    obtain ⟨p, hp, -, -, -, hr⟩ := mem_peripheralExtents_iff.1 he
    exact h p (List.mem_of_getElem? hp) e.range hr

/-- Peripherals with distinct names and symmetric alternates do not conflict if and only if any two
of them are clear of each other. -/
theorem conflictsAmong_peripheralExtents_iff (path : NodePath) {ps : List Peripheral}
    (names : (ps.map (·.name)).Nodup) (symmetric : SymmetricAlternates (ps.map (·.toHeader))) :
    Extent.conflictsAmong (peripheralExtents path ps) = [] ↔
      ∀ p ∈ ps, ∀ q ∈ ps, p.ClearOf q := by
  constructor
  · intro h p hp q hq hne hunlinked r hr s hs hshared
    obtain ⟨i, hi⟩ := List.mem_iff_getElem?.1 hp
    obtain ⟨j, hj⟩ := List.mem_iff_getElem?.1 hq
    have hij : i ≠ j := by
      rintro rfl
      rw [hi] at hj
      cases hj
      exact hne rfl
    have hpe : ⟨i, p.name, path.child p.name, p.alternates, r⟩ ∈ peripheralExtents path ps :=
      mem_peripheralExtents_iff.2 ⟨p, hi, rfl, rfl, rfl, hr⟩
    have hqe : ⟨j, q.name, path.child q.name, q.alternates, s⟩ ∈ peripheralExtents path ps :=
      mem_peripheralExtents_iff.2 ⟨q, hj, rfl, rfl, rfl, hs⟩
    rcases Extent.linked_of_intersects h hpe hqe hij hshared with hlinked | hlinked
    · exact hunlinked hlinked
    · exact hunlinked (symmetric _ (List.mem_map_of_mem hq) _ (List.mem_map_of_mem hp) hlinked)
  · intro h
    rw [Extent.conflictsAmong_eq_conflictsBehind, Extent.conflictsBehind_eq_nil_iff]
    refine ⟨nofun, List.pairwise_of_forall_mem_list fun a ha b hb hconflict => ?_⟩
    obtain ⟨hshared, hadmits⟩ := hconflict
    obtain ⟨p, hp, -, -, halternates, hr⟩ :=
      mem_peripheralExtents_iff.1 (Extent.mem_inOrder.1 ha).1
    obtain ⟨q, hq, hname, -, -, hs⟩ := mem_peripheralExtents_iff.1 (Extent.mem_inOrder.1 hb).1
    simp only [Extent.admits, Bool.or_eq_true, beq_iff_eq, decide_eq_true_eq, not_or] at hadmits
    rw [hname, halternates] at hadmits
    refine h p (List.mem_of_getElem? hp) q (List.mem_of_getElem? hq) (fun heq => ?_) hadmits.2
      a.range hr b.range hs hshared
    exact hadmits.1 (index_eq_of_key_eq names hp hq heq)

/-! ### Devices -/

/-- A peripheral at a path has all addresses, sizes and reset values that it needs, and nothing
inside of it conflicts. -/
structure Peripheral.Placeable (tolerant : Bool) (path : NodePath) (p : Peripheral) : Prop where
  baseAddress : p.baseAddress.isSome
  offsets : ∀ e ∈ (Member.levelsAll path p.memberList).flatten, e.2.offset.isSome
  registers : ∀ e ∈ (Member.levelsAll path p.memberList).flatten, ∀ r, e.2 = .register r →
    r.check e.1 = .ok ()
  groups : ∀ extents ∈ p.placeAll.extentGroups path,
    (checkExtents tolerant extents).result = .ok ()
  lengths : ∀ r ∈ p.placeAll.ranges, ¬ AddressRange.maxLength < r.length

namespace Device

variable {d : Device}

theorem checkBaseAddresses_eq_ok_iff :
    d.checkBaseAddresses = .ok () ↔ ∀ p ∈ d.peripherals, p.baseAddress.isSome := by
  rw [checkBaseAddresses, forM_eq_ok_iff]
  refine forall₂_congr fun p _ => ?_
  split
  · next hsome => exact iff_of_true rfl hsome
  · next hnone => exact iff_of_false nofun hnone

theorem checkOffsets_eq_ok_iff :
    d.checkOffsets = .ok () ↔ ∀ p ∈ d.peripherals,
      ∀ e ∈ (Member.levelsAll (d.path.child p.name) p.memberList).flatten, e.2.offset.isSome := by
  have hall : d.checkOffsets = .ok () ↔ ∀ e ∈ d.levels.flatten, e.2.offset.isSome := by
    rw [checkOffsets, forM_eq_ok_iff]
    refine forall₂_congr fun e _ => ?_
    obtain ⟨path, m⟩ := e
    by_cases hsome : m.offset.isSome
    · simp [hsome]
    · simp [hsome]
  rw [hall]
  simp only [mem_levels_iff]
  exact ⟨fun h p hp e he => h e ⟨p, hp, he⟩, fun h e ⟨p, hp, he⟩ => h p hp e he⟩

theorem checkRegisters_eq_ok_iff :
    d.checkRegisters = .ok () ↔ ∀ p ∈ d.peripherals,
      ∀ e ∈ (Member.levelsAll (d.path.child p.name) p.memberList).flatten,
        ∀ r, e.2 = .register r → r.check e.1 = .ok () := by
  have hall : d.checkRegisters = .ok () ↔
      ∀ e ∈ d.levels.flatten, ∀ r, e.2 = .register r → r.check e.1 = .ok () := by
    rw [checkRegisters, forM_eq_ok_iff]
    simp only [List.mem_reverse]
    refine forall₂_congr fun e _ => ?_
    obtain ⟨path, m⟩ := e
    cases m with
    | register r => simp
    | cluster c ms => simp
  rw [hall]
  simp only [mem_levels_iff]
  exact ⟨fun h p hp e he => h e ⟨p, hp, he⟩, fun h e ⟨p, hp, he⟩ => h p hp e he⟩

theorem names_placeAll : d.placeAll.peripherals.map (·.name) = d.peripherals.map (·.name) := by
  simp [placeAll, Peripheral.placeAll]

/-- The addresses of a device whose peripherals have distinct names and symmetric alternates can be
resolved if and only if each peripheral can be placed and, unless conflicts are tolerated, any two
of them are clear of each other. -/
theorem resolveAddresses_eq_ok_iff (tolerant : Bool) (names : (d.peripherals.map (·.name)).Nodup)
    (symmetric : SymmetricAlternates (d.peripherals.map (·.toHeader))) (d' : Device) :
    (d.resolveAddresses tolerant).result = .ok d' ↔
      (∀ p ∈ d.peripherals, p.Placeable tolerant (d.path.child p.name)) ∧
        (tolerant = false → ∀ p ∈ d.peripherals, ∀ q ∈ d.peripherals,
          p.placeAll.ClearOf q.placeAll) ∧ d' = d.placeAll := by
  have hplaced : SymmetricAlternates (d.placeAll.peripherals.map (·.toHeader)) := by
    intro a ha b hb
    obtain ⟨p', hp', rfl⟩ := List.mem_map.1 ha
    obtain ⟨q', hq', rfl⟩ := List.mem_map.1 hb
    obtain ⟨p, hp, rfl⟩ := List.mem_map.1 hp'
    obtain ⟨q, hq, rfl⟩ := List.mem_map.1 hq'
    exact symmetric p.toHeader (List.mem_map.2 ⟨p, hp, rfl⟩) q.toHeader
      (List.mem_map.2 ⟨q, hq, rfl⟩)
  have hclear := conflictsAmong_peripheralExtents_iff d.path (names_placeAll (d := d) ▸ names)
    hplaced
  have hpairs : (checkExtents tolerant
      (peripheralExtents d.path d.placeAll.peripherals)).result = .ok () ↔
      (∀ p ∈ d.peripherals, ∀ r ∈ p.placeAll.ranges, ¬ AddressRange.maxLength < r.length) ∧
        (tolerant = false → ∀ p ∈ d.peripherals, ∀ q ∈ d.peripherals,
          p.placeAll.ClearOf q.placeAll) := by
    rw [checkExtents_eq_ok_iff, hclear, forall_not_isTooLong_iff]
    simp only [placeAll, List.forall_mem_map]
  have hgroups : (checkGroups tolerant d.placeAll.extentGroups).result = .ok () ↔
      (checkExtents tolerant (peripheralExtents d.path d.placeAll.peripherals)).result = .ok () ∧
        ∀ p ∈ d.peripherals, ∀ extents ∈ p.placeAll.extentGroups (d.path.child p.name),
          (checkExtents tolerant extents).result = .ok () := by
    rw [checkGroups_eq_ok_iff]
    simp only [mem_extentGroups_iff]
    constructor
    · intro h
      refine ⟨h _ (.inl rfl), fun p hp extents hextents => h extents (.inr ?_)⟩
      exact ⟨p.placeAll, List.mem_map_of_mem hp, hextents⟩
    · rintro ⟨hfirst, hinside⟩ extents (rfl | ⟨p', hp', hextents⟩)
      · exact hfirst
      · obtain ⟨p, hp, rfl⟩ := List.mem_map.1 hp'
        exact hinside p hp extents hextents
  constructor
  · intro h
    obtain ⟨⟨⟩, hbase, h⟩ := Logged.bind_eq_ok_iff.1 h
    obtain ⟨⟨⟩, hoffsets, h⟩ := Logged.bind_eq_ok_iff.1 h
    obtain ⟨⟨⟩, hregisters, h⟩ := Logged.bind_eq_ok_iff.1 h
    obtain ⟨⟨⟩, hchecked, h⟩ := Logged.bind_eq_ok_iff.1 h
    cases h
    rw [hgroups, hpairs] at hchecked
    obtain ⟨⟨hlengths, hpairs⟩, hinside⟩ := hchecked
    exact ⟨fun p hp => ⟨checkBaseAddresses_eq_ok_iff.1 hbase p hp,
      checkOffsets_eq_ok_iff.1 hoffsets p hp, checkRegisters_eq_ok_iff.1 hregisters p hp,
      hinside p hp, hlengths p hp⟩, hpairs, rfl⟩
  · rintro ⟨hall, hclear, rfl⟩
    have hchecked : (checkGroups tolerant d.placeAll.extentGroups).result = .ok () := by
      rw [hgroups, hpairs]
      exact ⟨⟨fun p hp => (hall p hp).lengths, hclear⟩, fun p hp => (hall p hp).groups⟩
    rw [resolveAddresses, Logged.bind_eq_ok_iff]
    refine ⟨(), checkBaseAddresses_eq_ok_iff.2 fun p hp => (hall p hp).baseAddress, ?_⟩
    rw [Logged.bind_eq_ok_iff]
    refine ⟨(), checkOffsets_eq_ok_iff.2 fun p hp => (hall p hp).offsets, ?_⟩
    rw [Logged.bind_eq_ok_iff]
    refine ⟨(), checkRegisters_eq_ok_iff.2 fun p hp => (hall p hp).registers, ?_⟩
    rw [Logged.bind_eq_ok_iff]
    exact ⟨(), hchecked, rfl⟩

end Device

end RegisterMap.Draft
