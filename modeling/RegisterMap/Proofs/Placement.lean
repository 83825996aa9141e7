import RegisterMap.Draft.Placement
import RegisterMap.Proofs.Conflict
import RegisterMap.Proofs.Linking

/-!
# Placed drafts

Placing a draft gives every element an address and leaves names and alternates as they are. The
groups of siblings that are checked for conflicts are those at all positions, so in a draft that has
passed the check siblings with a common address are alternates of each other.

A cluster whose members have no negative offset covers all of them
(`Member.range_within_of_mem_placeAt`).
-/

namespace RegisterMap

/-- Every address of the first range belongs to the second one. -/
def AddressRange.Within (r s : AddressRange) : Prop :=
  s.start ≤ r.start ∧ r.stop ≤ s.stop

theorem AddressRange.Within.refl (r : AddressRange) : r.Within r :=
  ⟨Int.le_refl _, Int.le_refl _⟩

theorem AddressRange.Within.trans {r s t : AddressRange} (h : r.Within s) (h' : s.Within t) :
    r.Within t :=
  ⟨Int.le_trans h'.1 h.1, Int.le_trans h.2 h'.2⟩

theorem AddressRange.Intersects.mono {r r' s s' : AddressRange} (h : r.Intersects s)
    (hr : r.Within r') (hs : s.Within s') : r'.Intersects s' := by
  rw [AddressRange.intersects_iff] at h ⊢
  obtain ⟨hr₁, hr₂⟩ := hr
  obtain ⟨hs₁, hs₂⟩ := hs
  omega

namespace Draft

namespace Member

@[simp] theorem name_placeAt (base : Int) (m : Member) : (placeAt base m).name = m.name := by
  cases m <;> rfl

@[simp] theorem alternates_header_placeAt (base : Int) (m : Member) :
    (placeAt base m).header.alternates = m.header.alternates := by
  cases m <;> rfl

/-- Everything inside of a placed member is placed. -/
theorem exists_members_placeAt (base : Int) (m : Member) :
    ∃ base', (placeAt base m).members = m.members.map (placeAt base') := by
  cases m with
  | register r => exact ⟨0, rfl⟩
  | cluster c ms => exact ⟨base + c.offset.getD 0, placeAllAt_eq_map _ ms⟩

/-- A group of siblings in placed members consists of placed members itself. -/
theorem exists_group_of_placeAt {base : Int} {ms ns' : List Member} {is : List Nat}
    (h : groupAt? (ms.map (placeAt base)) is = some ns') :
    ∃ base' ns, groupAt? ms is = some ns ∧ ns' = ns.map (placeAt base') := by
  induction is generalizing base ms with
  | nil =>
      cases h
      exact ⟨base, ms, rfl, rfl⟩
  | cons i is ih =>
      obtain ⟨m', hm', h⟩ := groupAt?_cons_eq_some_iff.1 h
      rw [List.getElem?_map] at hm'
      obtain ⟨m, hm, rfl⟩ := Option.map_eq_some_iff.1 hm'
      obtain ⟨base', hmembers⟩ := exists_members_placeAt base m
      rw [hmembers] at h
      obtain ⟨base'', ns, hns, rfl⟩ := ih h
      exact ⟨base'', ns, groupAt?_cons_eq_some_iff.2 ⟨m, hm, hns⟩, rfl⟩

theorem linkedSiblings_placeAt {base : Int} {ms : List Member}
    (h : LinkedSiblings (ms.map header)) :
    LinkedSiblings ((ms.map (placeAt base)).map header) := by
  have hname (m : Member) : (placeAt base m).header.name = m.header.name := name_placeAt base m
  exact h.congr (by simp [Function.comp_def, hname])

end Member

/-! ### Groups that are checked -/

theorem mem_flatten_joinLevels {α : Type} {xs ys : List (List α)} {a : α} :
    a ∈ (joinLevels xs ys).flatten ↔ a ∈ xs.flatten ∨ a ∈ ys.flatten := by
  induction xs, ys using joinLevels.induct with
  | case1 ys => simp [joinLevels]
  | case2 xs h => cases xs <;> simp [joinLevels]
  | case3 x xs y ys ih =>
      simp only [joinLevels, List.flatten_cons, List.mem_append, ih]
      tauto

namespace Member

theorem mem_levelsAll {path : NodePath} {ms : List Member} {m : Member} (hm : m ∈ ms) :
    (path.child m.name, m) ∈ (levelsAll path ms).flatten := by
  induction ms with
  | nil => cases hm
  | cons n ms ih =>
      rw [levelsAll, mem_flatten_joinLevels]
      rcases List.mem_cons.1 hm with rfl | hm
      · exact .inl (by simp)
      · exact .inr (ih hm)

theorem mem_levelsAll_of_mem_levels {path : NodePath} {ms : List Member} {m : Member}
    (hm : m ∈ ms) {e : Located} (he : e ∈ (m.levels (path.child m.name)).flatten) :
    e ∈ (levelsAll path ms).flatten := by
  induction ms with
  | nil => cases hm
  | cons n ms ih =>
      rw [levelsAll, mem_flatten_joinLevels]
      rcases List.mem_cons.1 hm with rfl | hm
      · exact .inl (by simp [he])
      · exact .inr (ih hm)

/-- A group inside of members is empty or belongs to a cluster on one of the levels. -/
theorem mem_levelsAll_of_groupAt? (path : NodePath) {ms ns : List Member} {i : Nat}
    {is : List Nat} (h : groupAt? ms (i :: is) = some ns) :
    ns = [] ∨ ∃ path' c, (path', .cluster c ns) ∈ (levelsAll path ms).flatten := by
  induction is generalizing path ms i with
  | nil =>
      obtain ⟨m, hm, hns⟩ := groupAt?_cons_eq_some_iff.1 h
      cases hns
      cases m with
      | register r => exact .inl rfl
      | cluster c ms => exact .inr ⟨_, c, mem_levelsAll (List.mem_of_getElem? hm)⟩
  | cons j is ih =>
      obtain ⟨m, hm, h⟩ := groupAt?_cons_eq_some_iff.1 h
      cases m with
      | register r => cases h
      | cluster c ms =>
          refine (ih (path.child (cluster c ms).name) h).imp_right ?_
          rintro ⟨path', c', hc⟩
          exact ⟨path', c', mem_levelsAll_of_mem_levels (List.mem_of_getElem? hm) hc⟩

end Member

theorem Device.mem_levels {d : Device} {p : Peripheral} (hp : p ∈ d.peripherals) {e : Located}
    (he : e ∈ (Member.levelsAll (d.path.child p.name) p.memberList).flatten) :
    e ∈ d.levels.flatten := by
  unfold Device.levels
  generalize d.path = path at he ⊢
  generalize d.peripherals = ps at hp ⊢
  induction ps with
  | nil => cases hp
  | cons q ps ih =>
      rw [List.foldr_cons, mem_flatten_joinLevels]
      rcases List.mem_cons.1 hp with rfl | hp
      · exact .inl he
      · exact .inr (ih hp)

/-- The check for conflicts looks at the members of every peripheral and cluster. -/
theorem Device.mem_extentGroups {d : Device} {p : Peripheral} (hp : p ∈ d.peripherals)
    {is : List Nat} {ns : List Member} (h : Member.groupAt? p.memberList is = some ns) :
    ns = [] ∨ ∃ path, memberExtents path ns ∈ d.extentGroups := by
  cases is with
  | nil =>
      cases h
      refine .inr ⟨d.path.child p.name, ?_⟩
      unfold Device.extentGroups
      refine List.mem_append.2 (.inl (List.mem_cons_of_mem _ (List.mem_map.2 ⟨p, hp, rfl⟩)))
  | cons i is =>
      refine (Member.mem_levelsAll_of_groupAt? (d.path.child p.name) h).imp_right ?_
      rintro ⟨path, c, hc⟩
      refine ⟨path, ?_⟩
      unfold Device.extentGroups
      exact List.mem_append.2 (.inr (List.mem_filterMap.2 ⟨_, d.mem_levels hp hc, rfl⟩))

/-- No two siblings of the device conflict. -/
def Device.ConflictFree (d : Device) : Prop :=
  ∀ extents ∈ d.extentGroups, Extent.conflictsAmong extents = []

theorem conflictsAmong_eq_nil_of_checkGroups {groups : List (List Extent)}
    (h : (checkGroups false groups).result = .ok ()) :
    ∀ extents ∈ groups, Extent.conflictsAmong extents = [] := by
  induction groups with
  | nil => exact nofun
  | cons extents groups ih =>
      obtain ⟨_, hfirst, hrest⟩ := Logged.bind_eq_ok_iff.1 h
      refine List.forall_mem_cons.2 ⟨?_, ih hrest⟩
      unfold checkExtents at hfirst
      split at hfirst
      · cases hfirst
      · dsimp only at hfirst
        rw [if_neg Bool.false_ne_true] at hfirst
        split at hfirst
        · assumption
        · cases hfirst

/-- A device whose addresses are resolved strictly is the placed one, without conflicts. -/
theorem Device.conflictFree_resolveAddresses (d : Device) :
    (d.resolveAddresses false).Yields fun placed => placed = d.placeAll ∧ placed.ConflictFree := by
  refine .bind_of_forall fun _ => .bind_of_forall fun _ => .bind_of_forall fun _ => ?_
  refine .bind (fun _ h => conflictsAmong_eq_nil_of_checkGroups h) fun _ hfree => ?_
  exact .bind_of_forall fun _ => .of_pure ⟨rfl, hfree⟩

theorem Peripheral.memberList_placeAll (p : Peripheral) :
    p.placeAll.memberList = p.memberList.map (Member.placeAt (p.baseAddress.getD 0)) := by
  unfold Peripheral.memberList Peripheral.placeAll
  cases p.members with
  | none => rfl
  | some ms => exact Member.placeAllAt_eq_map _ ms

theorem Device.Linked.placeAll {d : Device} (h : d.Linked) : d.placeAll.Linked where
  peripherals := by
    refine h.peripherals.congr ?_
    simp [Device.placeAll, Peripheral.placeAll, Function.comp_def]
  members := by
    intro p' hp' is ns' hns'
    obtain ⟨p, hp, rfl⟩ := List.mem_map.1 hp'
    rw [Peripheral.memberList_placeAll] at hns'
    obtain ⟨base, ns, hns, rfl⟩ := Member.exists_group_of_placeAt hns'
    exact Member.linkedSiblings_placeAt (h.members p hp is ns hns)

/-! ### Siblings with a common address -/

namespace Device

variable {d : Device}

theorem linked_of_members_intersect (free : d.ConflictFree) (linked : d.Linked) {p : Peripheral}
    (hp : p ∈ d.peripherals) {is : List Nat} {ns : List Member}
    (hns : Member.groupAt? p.memberList is = some ns) (names : (ns.map Member.name).Nodup)
    {i j : Nat} {m n : Member} (hm : ns[i]? = some m) (hn : ns[j]? = some n) (hij : i ≠ j)
    (shared : m.range.Intersects n.range) :
    n.name ∈ m.header.alternates ∧ m.name ∈ n.header.alternates := by
  rcases d.mem_extentGroups hp hns with rfl | ⟨path, hgroup⟩
  · cases hm
  · have extent {k : Nat} {e : Member} (he : ns[k]? = some e) :
        { owner := k, name := e.name, path := path.child e.name, alternates := e.header.alternates
          range := e.range : Extent } ∈ memberExtents path ns :=
      List.mem_map.2 ⟨(e, k), List.mk_mem_zipIdx_iff_getElem?.2 he, rfl⟩
    have names : ((ns.map Member.header).map (·.name)).Nodup := by
      rw [List.map_map]
      exact names
    have symmetric := linked.members p hp is ns hns names
    have hm' := List.mem_map_of_mem (f := Member.header) (List.mem_of_getElem? hm)
    have hn' := List.mem_map_of_mem (f := Member.header) (List.mem_of_getElem? hn)
    rcases Extent.linked_of_intersects (free _ hgroup) (extent hm) (extent hn) hij shared with h | h
    · exact ⟨h, symmetric _ hm' _ hn' h⟩
    · exact ⟨symmetric _ hn' _ hm' h, h⟩

theorem linked_of_peripherals_intersect (free : d.ConflictFree) (linked : d.Linked)
    (names : (d.peripherals.map (·.name)).Nodup) {i j : Nat} {p q : Peripheral}
    (hp : d.peripherals[i]? = some p) (hq : d.peripherals[j]? = some q) (hij : i ≠ j)
    {r s : AddressRange} (hr : r ∈ p.ranges) (hs : s ∈ q.ranges) (shared : r.Intersects s) :
    q.name ∈ p.alternates ∧ p.name ∈ q.alternates := by
  have extent {k : Nat} {e : Peripheral} (he : d.peripherals[k]? = some e) {range : AddressRange}
      (hrange : range ∈ e.ranges) :
      { owner := k, name := e.name, path := d.path.child e.name, alternates := e.alternates
        range : Extent } ∈ peripheralExtents d.path d.peripherals :=
    List.mem_flatMap.2 ⟨(e, k), List.mk_mem_zipIdx_iff_getElem?.2 he,
      List.mem_map.2 ⟨range, hrange, rfl⟩⟩
  have names : ((d.peripherals.map (·.toHeader)).map (·.name)).Nodup := by
    rw [List.map_map]
    exact names
  have symmetric := linked.peripherals names
  have hp' := List.mem_map_of_mem (f := fun p => p.toHeader) (List.mem_of_getElem? hp)
  have hq' := List.mem_map_of_mem (f := fun p => p.toHeader) (List.mem_of_getElem? hq)
  have hfree : Extent.conflictsAmong (peripheralExtents d.path d.peripherals) = [] :=
    free _ (by unfold extentGroups; exact List.mem_append.2 (.inl List.mem_cons_self))
  rcases Extent.linked_of_intersects hfree (extent hp hr) (extent hq hs) hij shared with h | h
  · exact ⟨h, symmetric _ hp' _ hq' h⟩
  · exact ⟨symmetric _ hq' _ hp' h, h⟩

end Device

/-! ### Extents of clusters -/

namespace Member

theorem le_lastStop {address : Int} {ms : List Member} {m : Member} (hm : m ∈ ms) :
    m.stop ≤ lastStop address ms := by
  unfold lastStop
  have hmem := List.mem_map_of_mem (f := stop) hm
  cases hmax : (ms.map stop).max? with
  | none =>
      rw [List.max?_eq_none_iff.1 hmax] at hmem
      cases hmem
  | some a => exact (List.max?_eq_some_iff.1 hmax).2 _ hmem

theorem start_placeAt (base : Int) (m : Member) :
    (placeAt base m).start = base + m.offset.getD 0 := by
  cases m <;> rfl

/-- A placed cluster ends no earlier than any of its members, and starts no later than those with an
offset that is not negative. -/
theorem range_within_of_mem_placeAt {base : Int} {c : Cluster} {ms : List Member}
    {c' : Cluster} {ms' : List Member}
    (h : placeAt base (.cluster c ms) = .cluster c' ms') {m : Member} (hm : m ∈ ms')
    {offset : Int} (hoffset : m.offset = some offset) (nonneg : 0 ≤ offset) :
    m.range.Within (cluster c' ms').range := by
  simp only [placeAt, cluster.injEq] at h
  obtain ⟨rfl, rfl⟩ := h
  rw [placeAllAt_eq_map] at hm
  obtain ⟨m, hm₀, rfl⟩ := List.mem_map.1 hm
  have hoffset : m.offset = some offset := by
    rw [← hoffset]
    cases m <;> rfl
  constructor
  · change base + c.offset.getD 0 ≤ (placeAt _ m).start
    rw [start_placeAt, hoffset, Option.getD_some]
    omega
  · change (placeAt _ m).stop ≤ base + c.offset.getD 0 + _
    have hlast : (placeAt (base + c.offset.getD 0) m).stop ≤
        lastStop (base + c.offset.getD 0) (ms.map (placeAt (base + c.offset.getD 0))) :=
      le_lastStop hm
    rw [placeAllAt_eq_map]
    dsimp only
    omega

end Member

end Draft

end RegisterMap
