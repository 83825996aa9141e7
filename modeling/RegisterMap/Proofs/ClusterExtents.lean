import Mathlib
import RegisterMap.Proofs.Completeness

/-!
# Extents of clusters

The extent of a cluster is tight: it ends where the last register in it ends, at whatever depth, or
at the address of a cluster in it that has no members, if there is nothing behind that address
(`Member.EndsAt`). This does not depend on the signs of offsets, so a cluster may end before its own
address. If no offset in it is negative, it covers all of its registers.

Members are measured from the inside out, and so the end of a cluster is found by induction on what
is in it: it is the greatest end of its members.
-/

namespace RegisterMap.Draft

namespace Member

/-- The first member is the second one, or is in it at some depth. -/
inductive IsPart : Member → Member → Prop
  | refl (m : Member) : IsPart m m
  | inside {m n : Member} {c : Cluster} {ms : List Member} (mem : n ∈ ms) (part : IsPart m n) :
      IsPart m (.cluster c ms)

/-- The first member is in the second one at some depth. -/
def Inside (m n : Member) : Prop :=
  ∃ k ∈ n.members, m.IsPart k

/-- Something in the placed member ends at an address: a register, or a cluster without members,
which ends where it starts. -/
inductive EndsAt (m : Member) : Int → Prop
  | register {r : Register} {address size : Int} (part : (register r).IsPart m)
      (placed : r.address = some address) (wide : r.effective.size = some size) :
      EndsAt m (address + byteCount size)
  | empty {c : Cluster} {address : Int} (part : (cluster c []).IsPart m)
      (placed : c.address = some address) : EndsAt m address

/-- The members of a cluster are where their offsets say, and it ends where the last of them
ends. -/
def Measured : Member → Prop
  | .register _ => True
  | .cluster c ms =>
    (cluster c ms).stop = lastStop (cluster c ms).start ms ∧
      ∀ m ∈ ms, m.start = (cluster c ms).start + m.offset.getD 0

/-- The member has an address, a size if it is a register, and a measured extent. -/
structure HasExtent (m : Member) : Prop where
  located : m.Located
  usable : m.Usable
  measured : m.Measured

variable {m n : Member}

theorem isPart_cluster_iff {c : Cluster} {ms : List Member} :
    m.IsPart (.cluster c ms) ↔ m = .cluster c ms ∨ ∃ n ∈ ms, m.IsPart n := by
  constructor
  · rintro (_ | ⟨hn, hpart⟩)
    · exact .inl rfl
    · exact .inr ⟨_, hn, hpart⟩
  · rintro (rfl | ⟨n, hn, hpart⟩)
    · exact .refl _
    · exact .inside hn hpart

theorem isPart_empty_iff {c : Cluster} : m.IsPart (.cluster c []) ↔ m = .cluster c [] := by
  simp [isPart_cluster_iff]

theorem endsAt_register_iff {r : Register} (h : HasExtent (.register r)) {a : Int} :
    (register r).EndsAt a ↔ a = (register r).stop := by
  obtain ⟨address, haddress⟩ := Option.isSome_iff_exists.1 h.located
  obtain ⟨size, hsize, -⟩ := h.usable rfl
  change r.address = some address at haddress
  change r.effective.size = some size at hsize
  have hstop : (register r).stop = address + byteCount size := by
    simp [stop, start, header, haddress, hsize]
  constructor
  · rintro (⟨⟨⟩, hplaced, hwide⟩ | ⟨⟨⟩, -⟩)
    rw [haddress, Option.some.injEq] at hplaced
    rw [hsize, Option.some.injEq] at hwide
    rw [hstop, hplaced, hwide]
  · rintro rfl
    rw [hstop]
    exact .register (.refl _) haddress hsize

theorem endsAt_empty_iff {c : Cluster} (h : HasExtent (.cluster c [])) {a : Int} :
    (cluster c []).EndsAt a ↔ a = (cluster c []).stop := by
  obtain ⟨address, haddress⟩ := Option.isSome_iff_exists.1 h.located
  change c.address = some address at haddress
  have hstop : (cluster c []).stop = address := by
    rw [h.measured.1]
    simp [lastStop, start, header, haddress]
  rw [hstop]
  constructor
  · rintro (⟨part, -, -⟩ | ⟨part, hplaced⟩)
    · cases isPart_empty_iff.1 part
    · cases isPart_empty_iff.1 part
      rw [haddress, Option.some.injEq] at hplaced
      exact hplaced.symm
  · rintro rfl
    exact .empty (.refl _) haddress

/-- What ends in a cluster with members ends in one of them. -/
theorem endsAt_cluster_iff {c : Cluster} {ms : List Member} (nonempty : ms ≠ [])
    {a : Int} : (cluster c ms).EndsAt a ↔ ∃ m ∈ ms, m.EndsAt a := by
  constructor
  · rintro (⟨part, hplaced, hwide⟩ | ⟨part, hplaced⟩)
    · obtain ⟨m, hm, part⟩ := (isPart_cluster_iff.1 part).resolve_left nofun
      exact ⟨m, hm, .register part hplaced hwide⟩
    · obtain ⟨m, hm, part⟩ := (isPart_cluster_iff.1 part).resolve_left (by simp [nonempty.symm])
      exact ⟨m, hm, .empty part hplaced⟩
  · rintro ⟨m, hm, ⟨part, hplaced, hwide⟩ | ⟨part, hplaced⟩⟩
    · exact .register (.inside hm part) hplaced hwide
    · exact .empty (.inside hm part) hplaced

/-- The end of several members is the greatest of their ends. -/
theorem isGreatest_lastStop (address : Int) {ms : List Member} (nonempty : ms ≠ []) :
    IsGreatest {a | ∃ m ∈ ms, a = m.stop} (lastStop address ms) := by
  refine ⟨?_, ?_⟩
  · have hsome : ms.map stop ≠ [] := fun h => nonempty (List.map_eq_nil_iff.1 h)
    obtain ⟨last, hlast⟩ := Option.ne_none_iff_exists'.1 (mt List.max?_eq_none_iff.1 hsome)
    obtain ⟨m, hm, hstop⟩ := List.mem_map.1 (List.max?_eq_some_iff.1 hlast).1
    refine ⟨m, hm, ?_⟩
    rw [lastStop, hlast, Option.getD_some, hstop]
  · rintro _ ⟨m, hm, rfl⟩
    exact le_lastStop hm

mutual

/-- A placed member ends where the last of what is in it ends. -/
theorem isGreatest_stop : ∀ m : Member, m.Each HasExtent → IsGreatest {a | m.EndsAt a} m.stop
  | .register r, h => by
      simp only [endsAt_register_iff h]
      exact isGreatest_singleton
  | .cluster c [], h => by
      simp only [endsAt_empty_iff h.1]
      exact isGreatest_singleton
  | .cluster c (m :: ms), h => by
      obtain ⟨hlast, hgreatest⟩ := isGreatest_lastStop (cluster c (m :: ms)).start
        (List.cons_ne_nil m ms)
      have hmembers := isGreatest_stop_of_mem (m :: ms) h.2
      rw [h.1.measured.1]
      refine ⟨?_, fun a ha => ?_⟩
      · obtain ⟨n, hn, hstop⟩ := hlast
        rw [hstop]
        exact (endsAt_cluster_iff (List.cons_ne_nil m ms)).2 ⟨n, hn, (hmembers n hn).1⟩
      · obtain ⟨n, hn, ha⟩ := (endsAt_cluster_iff (List.cons_ne_nil m ms)).1 ha
        exact ((hmembers n hn).2 ha).trans (hgreatest ⟨n, hn, rfl⟩)

theorem isGreatest_stop_of_mem : ∀ ms : List Member, EachAll HasExtent ms →
    ∀ m ∈ ms, IsGreatest {a | m.EndsAt a} m.stop
  | [], _ => nofun
  | m :: ms, h =>
      List.forall_mem_cons.2 ⟨isGreatest_stop m h.1, isGreatest_stop_of_mem ms h.2⟩

end

mutual

theorem each_measured_placeAt (base : Int) : ∀ m : Member, (placeAt base m).Each Measured
  | .register _ => trivial
  | .cluster c ms => by
      refine ⟨⟨?_, fun m hm => ?_⟩, eachAll_measured_placeAllAt _ ms⟩
      · change base + c.offset.getD 0 + (_ - (base + c.offset.getD 0)) = _
        rw [add_sub_cancel]
        rfl
      · rw [placeAllAt_eq_map] at hm
        obtain ⟨m, -, rfl⟩ := List.mem_map.1 hm
        rw [start_placeAt]
        cases m <;> rfl

theorem eachAll_measured_placeAllAt (base : Int) :
    ∀ ms : List Member, EachAll Measured (placeAllAt base ms)
  | [] => trivial
  | m :: ms => ⟨each_measured_placeAt base m, eachAll_measured_placeAllAt base ms⟩

end

end Member

end RegisterMap.Draft
