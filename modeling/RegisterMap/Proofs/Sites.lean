import RegisterMap.Draft.Scope

/-!
# Registers by position

The position of a register leads to it from the device, index by index: `Device.site?` goes that
way. The sites of a device are the registers at all positions, with no position twice, so a register
may be looked up, and replaced, by its position.
-/

namespace RegisterMap.Draft

namespace Scope

/-- The register at a position below a scope. -/
def site? (s : Scope) : List Nat → Option Site
  | [] => none
  | i :: is =>
    match s.members[i]? with
    | some (.register r) => if is.isEmpty then some ⟨s, i, r⟩ else none
    | some (.cluster c ms) => site? ⟨s.position ++ [i], s.path.child c.name, ms⟩ is
    | none => none

variable {s : Scope} {t : Site} {i : Nat} {is : List Nat}

theorem site?_register {r : Register} (h : s.members[i]? = some (.register r)) :
    s.site? [i] = some ⟨s, i, r⟩ := by
  simp [site?, h]

theorem site?_cluster {c : Cluster} {ms : List Member}
    (h : s.members[i]? = some (.cluster c ms)) :
    s.site? (i :: is) = site? ⟨s.position ++ [i], s.path.child c.name, ms⟩ is := by
  rw [site?, h]

/-- A position leads to a register of the scope, or on through one of its clusters. -/
theorem site?_cons_eq_some_iff :
    s.site? (i :: is) = some t ↔
      (is = [] ∧ ∃ r, s.members[i]? = some (.register r) ∧ t = ⟨s, i, r⟩) ∨
        ∃ c ms, s.members[i]? = some (.cluster c ms) ∧
          site? ⟨s.position ++ [i], s.path.child c.name, ms⟩ is = some t := by
  constructor
  · intro h
    rw [site?] at h
    split at h
    · next r hr =>
      obtain ⟨hempty, h⟩ := Option.ite_none_right_eq_some.1 h
      exact .inl ⟨List.isEmpty_iff.1 hempty, r, hr, (Option.some.inj h).symm⟩
    · next c ms hc => exact .inr ⟨c, ms, hc, h⟩
    · cases h
  · rintro (⟨rfl, r, hr, rfl⟩ | ⟨c, ms, hc, h⟩)
    · exact site?_register hr
    · rw [site?_cluster hc, h]

theorem position_of_site? (h : s.site? is = some t) : t.position = s.position ++ is := by
  induction is generalizing s with
  | nil => cases h
  | cons i is ih =>
      rcases site?_cons_eq_some_iff.1 h with ⟨rfl, r, -, rfl⟩ | ⟨c, ms, -, h⟩
      · rfl
      · rw [ih h, List.append_assoc, List.singleton_append]

theorem mem_registers_iff :
    t ∈ s.registers ↔ t.scope = s ∧ s.members[t.index]? = some (.register t.register) := by
  unfold registers
  rw [List.mem_filterMap]
  constructor
  · rintro ⟨⟨m, i⟩, hm, h⟩
    rw [List.mk_mem_zipIdx_iff_getElem?] at hm
    cases m with
    | register r =>
        cases h
        exact ⟨rfl, hm⟩
    | cluster c ms => cases h
  · rintro ⟨rfl, h⟩
    exact ⟨(.register t.register, t.index), List.mk_mem_zipIdx_iff_getElem?.2 h, rfl⟩

theorem site?_of_mem_registers (h : t ∈ s.registers) : s.site? [t.index] = some t := by
  obtain ⟨rfl, h⟩ := mem_registers_iff.1 h
  exact site?_register h

end Scope

/-! ### Sites -/

namespace Member

theorem mem_scopesAll_of_getElem? {position : List Nat} {path : NodePath} {k i : Nat}
    {ms : List Member} {m : Member} (hm : ms[i]? = some m) {u : Scope}
    (hu : u ∈ m.scopes (position ++ [k + i]) (path.child m.name)) :
    u ∈ scopesAll position path k ms := by
  induction ms generalizing k i with
  | nil => cases hm
  | cons n ms ih =>
      rw [scopesAll, List.mem_append]
      cases i with
      | zero =>
          cases hm
          exact .inr hu
      | succ i =>
          rw [Nat.add_comm i, ← Nat.add_assoc] at hu
          exact .inl (ih hm hu)

mutual

/-- Every register listed for a member stands at a position below it. -/
theorem exists_site?_of_mem_scopes (position : List Nat) (path : NodePath) {u : Scope} {t : Site}
    (ht : t ∈ u.registers) : ∀ m : Member, u ∈ m.scopes position path →
      ∃ is, Scope.site? ⟨position, path, m.members⟩ is = some t
  | .register _, hu => by cases hu
  | .cluster _ ms, hu => by
      rcases List.mem_cons.1 hu with rfl | hu
      · exact ⟨_, Scope.site?_of_mem_registers ht⟩
      · obtain ⟨i, c, ns, is, hi, his⟩ := exists_site?_of_mem_scopesAll position path ht 0 ms hu
        rw [Nat.zero_add] at his
        exact ⟨i :: is, (Scope.site?_cluster hi).trans his⟩

theorem exists_site?_of_mem_scopesAll (position : List Nat) (path : NodePath) {u : Scope}
    {t : Site} (ht : t ∈ u.registers) (k : Nat) : ∀ ms : List Member,
      u ∈ scopesAll position path k ms → ∃ i c ns is, ms[i]? = some (.cluster c ns) ∧
        Scope.site? ⟨position ++ [k + i], path.child c.name, ns⟩ is = some t
  | [], hu => by cases hu
  | m :: ms, hu => by
      rcases List.mem_append.1 hu with hu | hu
      · obtain ⟨i, c, ns, is, hi, his⟩ :=
          exists_site?_of_mem_scopesAll position path ht (k + 1) ms hu
        rw [Nat.add_right_comm, Nat.add_assoc] at his
        exact ⟨i + 1, c, ns, is, hi, his⟩
      · cases m with
        | register r => cases hu
        | cluster c ns =>
            obtain ⟨is, his⟩ := exists_site?_of_mem_scopes _ _ ht (.cluster c ns) hu
            exact ⟨0, c, ns, is, rfl, his⟩

end

/-- Every register at a position below a scope is listed. -/
theorem exists_scope_of_site? {s : Scope} {t : Site} {is : List Nat} (h : s.site? is = some t) :
    ∃ u ∈ s :: scopesAll s.position s.path 0 s.members, t ∈ u.registers := by
  induction is generalizing s with
  | nil => cases h
  | cons i is ih =>
      rcases Scope.site?_cons_eq_some_iff.1 h with ⟨rfl, r, hr, rfl⟩ | ⟨c, ms, hc, h⟩
      · exact ⟨s, List.mem_cons_self, Scope.mem_registers_iff.2 ⟨rfl, hr⟩⟩
      · obtain ⟨u, hu, ht⟩ := ih h
        refine ⟨u, List.mem_cons_of_mem _ (mem_scopesAll_of_getElem? hc ?_), ht⟩
        rw [Nat.zero_add]
        exact hu

end Member

namespace Device

/-- The register at a position of the device. -/
def site? (d : Device) : List Nat → Option Site
  | [] => none
  | i :: is => d.peripherals[i]?.bind fun p => (p.scope d.path i).site? is

variable {d : Device} {t : Site}

theorem site?_cons_eq_some_iff {i : Nat} {is : List Nat} :
    d.site? (i :: is) = some t ↔
      ∃ p, d.peripherals[i]? = some p ∧ (p.scope d.path i).site? is = some t :=
  Option.bind_eq_some_iff

theorem position_of_site? {position : List Nat} (h : d.site? position = some t) :
    t.position = position := by
  cases position with
  | nil => cases h
  | cons i is =>
      obtain ⟨p, -, h⟩ := site?_cons_eq_some_iff.1 h
      exact Scope.position_of_site? h

/-- The registers of the device are those at all positions. -/
theorem mem_sites_iff : t ∈ d.sites ↔ d.site? t.position = some t := by
  unfold sites scopes
  simp only [List.mem_flatMap]
  constructor
  · rintro ⟨u, ⟨⟨p, i⟩, hp, hu⟩, ht⟩
    rw [List.mk_mem_zipIdx_iff_getElem?] at hp
    have hbelow : ∃ is, (p.scope d.path i).site? is = some t := by
      rcases List.mem_cons.1 hu with rfl | hu
      · exact ⟨_, Scope.site?_of_mem_registers ht⟩
      · obtain ⟨j, c, ms, is, hj, his⟩ := Member.exists_site?_of_mem_scopesAll _ _ ht 0 _ hu
        rw [Nat.zero_add] at his
        exact ⟨j :: is, (Scope.site?_cluster hj).trans his⟩
    obtain ⟨is, his⟩ := hbelow
    have h : d.site? (i :: is) = some t := site?_cons_eq_some_iff.2 ⟨p, hp, his⟩
    rw [position_of_site? h]
    exact h
  · intro h
    generalize t.position = position at h
    cases position with
    | nil => cases h
    | cons i is =>
        obtain ⟨p, hp, h⟩ := site?_cons_eq_some_iff.1 h
        obtain ⟨u, hu, ht⟩ := Member.exists_scope_of_site? h
        exact ⟨u, ⟨(p, i), List.mk_mem_zipIdx_iff_getElem?.2 hp, hu⟩, ht⟩

theorem mem_sites_of_site? {position : List Nat} (h : d.site? position = some t) :
    t ∈ d.sites := by
  rw [mem_sites_iff, position_of_site? h]
  exact h

end Device

/-! ### Distinct positions -/

namespace Scope

theorem pairwise_registers (s : Scope) :
    s.registers.Pairwise fun t u => t.position ≠ u.position := by
  have hindex : s.members.zipIdx.Pairwise fun a b => a.2 ≠ b.2 := by
    rw [← List.pairwise_map (f := Prod.snd), List.zipIdx_map_snd]
    exact List.nodup_range' 1
  unfold registers
  rw [List.pairwise_filterMap]
  refine hindex.imp fun {a b} hab t ht u hu => ?_
  obtain ⟨m, i⟩ := a
  obtain ⟨n, j⟩ := b
  cases m with
  | cluster => cases ht
  | register =>
      cases n with
      | cluster => cases hu
      | register =>
          cases ht
          cases hu
          simpa [Site.position] using hab

end Scope

namespace Member

/-- A register that is listed for a member stands below its position. -/
theorem exists_position_of_mem_scopes {position : List Nat} {path : NodePath} {m : Member}
    {t : Site} (ht : t ∈ (m.scopes position path).flatMap Scope.registers) :
    ∃ i is, t.position = position ++ i :: is := by
  obtain ⟨u, hu, ht⟩ := List.mem_flatMap.1 ht
  obtain ⟨is, his⟩ := exists_site?_of_mem_scopes position path ht m hu
  have hposition := Scope.position_of_site? his
  cases is with
  | nil => cases his
  | cons i is => exact ⟨i, is, hposition⟩

theorem exists_position_of_mem_scopesAll {position : List Nat} {path : NodePath} {k : Nat}
    {ms : List Member} {t : Site}
    (ht : t ∈ (scopesAll position path k ms).flatMap Scope.registers) :
    ∃ i j is, k ≤ i ∧ t.position = position ++ i :: j :: is := by
  obtain ⟨u, hu, ht⟩ := List.mem_flatMap.1 ht
  obtain ⟨i, c, ns, is, -, his⟩ := exists_site?_of_mem_scopesAll position path ht k ms hu
  have hposition := Scope.position_of_site? his
  cases is with
  | nil => cases his
  | cons j is =>
      refine ⟨k + i, j, is, Nat.le_add_right k i, ?_⟩
      rw [hposition, List.append_assoc, List.singleton_append]

mutual

theorem pairwise_scopes (position : List Nat) (path : NodePath) : ∀ m : Member,
    ((m.scopes position path).flatMap Scope.registers).Pairwise fun t u => t.position ≠ u.position
  | .register _ => .nil
  | .cluster c ms => by
      rw [scopes, List.flatMap_cons, List.pairwise_append]
      refine ⟨Scope.pairwise_registers _, pairwise_scopesAll position path 0 ms, ?_⟩
      intro t ht u hu
      obtain ⟨hscope, -⟩ := Scope.mem_registers_iff.1 ht
      obtain ⟨i, j, is, -, hu⟩ := exists_position_of_mem_scopesAll hu
      -- What is inside of a cluster stands deeper than what is beside it.
      have ht : t.position = position ++ [t.index] := by rw [Site.position, hscope]
      rw [ht, hu]
      intro heq
      have hlength := congrArg List.length heq
      simp at hlength

theorem pairwise_scopesAll (position : List Nat) (path : NodePath) (k : Nat) :
    ∀ ms : List Member, ((scopesAll position path k ms).flatMap Scope.registers).Pairwise
      fun t u => t.position ≠ u.position
  | [] => .nil
  | m :: ms => by
      rw [scopesAll, List.flatMap_append, List.pairwise_append]
      refine ⟨pairwise_scopesAll position path (k + 1) ms, pairwise_scopes _ _ m, ?_⟩
      intro t ht u hu
      obtain ⟨i, j, is, hle, ht⟩ := exists_position_of_mem_scopesAll ht
      obtain ⟨j', is', hu⟩ := exists_position_of_mem_scopes hu
      rw [ht, hu, List.append_assoc, List.singleton_append]
      intro heq
      have hfirst : i = k := (List.cons.inj (List.append_cancel_left heq)).1
      omega

end

end Member

/-- The scopes in a peripheral are those in a cluster with the same members. -/
theorem Peripheral.scopes_eq (parent : NodePath) (i : Nat) (p : Peripheral) :
    p.scopes parent i =
      Member.scopes [i] (parent.child p.name) (.cluster { toHeader := p.toHeader } p.memberList) :=
  rfl

/-- No two registers of the device stand at the same position. -/
theorem Device.nodup_position_sites (d : Device) : (d.sites.map Site.position).Nodup := by
  have hindex : d.peripherals.zipIdx.Pairwise fun a b => a.2 ≠ b.2 := by
    rw [← List.pairwise_map (f := Prod.snd), List.zipIdx_map_snd]
    exact List.nodup_range' 1
  rw [List.Nodup, List.pairwise_map]
  unfold Device.sites Device.scopes
  rw [List.flatMap_assoc, List.pairwise_flatMap]
  refine ⟨fun a _ => ?_, hindex.imp fun {a b} hab t ht u hu => ?_⟩
  · exact Member.pairwise_scopes _ _ (.cluster { toHeader := a.1.toHeader } a.1.memberList)
  · obtain ⟨p, i⟩ := a
    obtain ⟨q, j⟩ := b
    dsimp only at ht hu
    rw [Peripheral.scopes_eq] at ht hu
    obtain ⟨_, _, ht⟩ := Member.exists_position_of_mem_scopes ht
    obtain ⟨_, _, hu⟩ := Member.exists_position_of_mem_scopes hu
    rw [ht, hu]
    intro heq
    exact hab (List.cons.inj heq).1

/-! ### Registers by path -/

theorem Scope.exists_site?_of_find? {s : Scope} {names : List String} {t : Site}
    (h : s.find? names = some t) : ∃ is, s.site? is = some t := by
  induction names generalizing s with
  | nil => cases h
  | cons name names ih =>
      rw [Scope.find?] at h
      split at h
      · next r i hfind =>
        obtain ⟨-, h⟩ := Option.ite_none_right_eq_some.1 h
        cases h
        have hmem := List.mem_of_find?_eq_some hfind
        exact ⟨[i], site?_register (List.mk_mem_zipIdx_iff_getElem?.1 hmem)⟩
      · next c ms i hfind =>
        have hmem := List.mem_of_find?_eq_some hfind
        obtain ⟨is, his⟩ := ih h
        refine ⟨i :: is, ?_⟩
        rw [site?_cluster (List.mk_mem_zipIdx_iff_getElem?.1 hmem), his]
      · cases h

/-- The register at which a path arrives stands at a position of the device. -/
theorem Device.exists_site?_of_find? {d : Device} {path : NodePath} {t : Site}
    (h : d.find? path = some t) : ∃ position, d.site? position = some t := by
  unfold Device.find? at h
  split at h
  · cases h
  · obtain ⟨⟨p, i⟩, hfind, h⟩ := Option.bind_eq_some_iff.1 h
    have hmem := List.mem_of_find?_eq_some hfind
    obtain ⟨is, his⟩ := Scope.exists_site?_of_find? h
    exact ⟨i :: is, site?_cons_eq_some_iff.2 ⟨p, List.mk_mem_zipIdx_iff_getElem?.1 hmem, his⟩⟩

/-! ### Replacing registers -/

/-- The scope with each register replaced. -/
def Scope.mapRegisters (f : List Nat → Register → Register) (s : Scope) : Scope :=
  { s with members := Member.mapRegistersAll f s.position 0 s.members }

/-- The register in its place, when each register is replaced. -/
def Site.mapRegisters (f : List Nat → Register → Register) (t : Site) : Site :=
  ⟨t.scope.mapRegisters f, t.index, f t.position t.register⟩

variable {f : List Nat → Register → Register}

theorem Member.getElem?_mapRegistersAll (position : List Nat) (k i : Nat) (ms : List Member) :
    (mapRegistersAll f position k ms)[i]? =
      ms[i]?.map (mapRegisters f (position ++ [k + i])) := by
  induction ms generalizing k i with
  | nil => rfl
  | cons m ms ih =>
      cases i with
      | zero => rfl
      | succ i =>
          rw [mapRegistersAll, List.getElem?_cons_succ, List.getElem?_cons_succ, ih,
            Nat.add_right_comm, Nat.add_assoc]

theorem Scope.site?_mapRegisters (s : Scope) (is : List Nat) :
    (s.mapRegisters f).site? is = (s.site? is).map (Site.mapRegisters f) := by
  induction is generalizing s with
  | nil => rfl
  | cons i is ih =>
      have hmember : (s.mapRegisters f).members[i]? =
          s.members[i]?.map (Member.mapRegisters f (s.position ++ [i])) := by
        have := Member.getElem?_mapRegistersAll (f := f) s.position 0 i s.members
        rwa [Nat.zero_add] at this
      rw [site?, site?, hmember]
      cases s.members[i]? with
      | none => rfl
      | some m =>
          cases m with
          | register r => cases is <;> rfl
          | cluster c ms => exact ih ⟨s.position ++ [i], s.path.child c.name, ms⟩

theorem Device.getElem?_mapRegisters (d : Device) (i : Nat) :
    (d.mapRegisters f).peripherals[i]? = d.peripherals[i]?.map fun p =>
      { p with members := p.members.map (Member.mapRegistersAll f [i] 0) } :=
  List.getElem?_mapIdx

/-- The register at a position is the one that has replaced the register there. -/
theorem Device.site?_mapRegisters (d : Device) (position : List Nat) :
    (d.mapRegisters f).site? position = (d.site? position).map (Site.mapRegisters f) := by
  cases position with
  | nil => rfl
  | cons i is =>
      rw [site?, site?, Device.mapRegisters, List.getElem?_mapIdx]
      cases d.peripherals[i]? with
      | none => rfl
      | some p =>
          have hscope : Peripheral.scope d.path i
              { p with members := p.members.map (Member.mapRegistersAll f [i] 0) } =
                (p.scope d.path i).mapRegisters f := by
            cases h : p.members <;> simp [Peripheral.scope, Scope.mapRegisters,
              Peripheral.memberList, h, Member.mapRegistersAll]
          change (Peripheral.scope d.path i _).site? is = _
          rw [hscope, Scope.site?_mapRegisters]
          rfl

end RegisterMap.Draft
