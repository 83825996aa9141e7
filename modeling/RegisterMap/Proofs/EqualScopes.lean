import RegisterMap.Proofs.Lookup
import RegisterMap.Proofs.Resolvability

/-!
# Registers in equal scopes

Where a scope stands does not matter for the registers in it. Registers at the same place of scopes
with the same members refer to registers that match each other in the same way, and so do their
chains; what they are derived to is the same.

The two scopes may belong to different devices, as long as a dotted path that arrives somewhere in
one of them arrives at a matching register in the other one (`Device.FindsAlike`).
-/

namespace RegisterMap.Draft

/-- The registers stand at the same place of scopes with the same members. -/
structure Site.Matches (s t : Site) : Prop where
  members : s.scope.members = t.scope.members
  index : s.index = t.index
  register : s.register = t.register

theorem Site.Matches.refl (s : Site) : s.Matches s :=
  ⟨rfl, rfl, rfl⟩

theorem Site.Matches.symm {s t : Site} (h : s.Matches t) : t.Matches s :=
  ⟨h.members.symm, h.index.symm, h.register.symm⟩

namespace Scope

variable {s t : Scope}

theorem registers_eq_map (members : s.members = t.members) :
    t.registers = s.registers.map fun u => ⟨t, u.index, u.register⟩ := by
  unfold registers
  rw [List.map_filterMap, members]
  congr 1
  funext e
  obtain ⟨m, i⟩ := e
  cases m <;> rfl

theorem matches_of_mem_registers (members : s.members = t.members) {u : Site}
    (hu : u ∈ s.registers) : u.Matches ⟨t, u.index, u.register⟩ := by
  obtain ⟨rfl, -⟩ := mem_registers_iff.1 hu
  exact ⟨members, rfl, rfl⟩

theorem exists_matching_register (members : s.members = t.members) {p : Register → Bool} {u : Site}
    (h : s.registers.find? (p ·.register) = some u) :
    ∃ v, t.registers.find? (p ·.register) = some v ∧ u.Matches v := by
  refine ⟨⟨t, u.index, u.register⟩, ?_,
    matches_of_mem_registers members (List.mem_of_find?_eq_some h)⟩
  rw [registers_eq_map members, List.find?_map]
  change Option.map _ (s.registers.find? (p ·.register)) = _
  rw [h, Option.map_some]

/-- The same position leads to matching registers below scopes with the same members. -/
theorem exists_matching_site (members : s.members = t.members) {is : List Nat} {u : Site}
    (h : s.site? is = some u) : ∃ v, t.site? is = some v ∧ u.Matches v := by
  induction is generalizing s t with
  | nil => cases h
  | cons i is ih =>
      rcases site?_cons_eq_some_iff.1 h with ⟨rfl, r, hr, rfl⟩ | ⟨c, ms, hc, h⟩
      · rw [members] at hr
        exact ⟨⟨t, i, r⟩, site?_register hr, ⟨members, rfl, rfl⟩⟩
      · rw [members] at hc
        rw [site?_cluster hc]
        exact ih (s := ⟨s.position ++ [i], s.path.child c.name, ms⟩)
          (t := ⟨t.position ++ [i], t.path.child c.name, ms⟩) rfl h

/-- The same names lead to matching registers below scopes with the same members. -/
theorem exists_matching_found (members : s.members = t.members) {names : List String} {u : Site}
    (h : s.find? names = some u) : ∃ v, t.find? names = some v ∧ u.Matches v := by
  induction names generalizing s t with
  | nil => cases h
  | cons name names ih =>
      rw [find?] at h ⊢
      rw [← members]
      cases hfind : s.members.zipIdx.find? (·.1.name == name) with
      | none =>
          rw [hfind] at h
          cases h
      | some e =>
          obtain ⟨m, i⟩ := e
          rw [hfind] at h
          cases m with
          | register r =>
              obtain ⟨hempty, h⟩ := Option.ite_none_right_eq_some.1 h
              cases h
              exact ⟨⟨t, i, r⟩, if_pos hempty, ⟨members, rfl, rfl⟩⟩
          | cluster c ms =>
              exact ih (s := ⟨s.position ++ [i], s.path.child c.name, ms⟩)
                (t := ⟨t.position ++ [i], t.path.child c.name, ms⟩) rfl h

end Scope

namespace Device

/-- Every path that arrives at a register of the first device arrives at a matching one of the
second device. -/
def FindsAlike (d d' : Device) : Prop :=
  ∀ path t, d.find? path = some t → ∃ t', d'.find? path = some t' ∧ t.Matches t'

theorem FindsAlike.refl (d : Device) : d.FindsAlike d :=
  fun _ t h => ⟨t, h, .refl t⟩

variable {d d' : Device} {s s' t : Site}

theorem RefersTo.transfer (finds : d.FindsAlike d') (h : d.RefersTo s t) (same : s.Matches s') :
    ∃ t', d'.RefersTo s' t' ∧ t.Matches t' := by
  cases h with
  | @sibling name given first =>
      obtain ⟨t', ht', hmatches⟩ :=
        Scope.exists_matching_register (p := (·.name == name)) same.members first
      exact ⟨t', .sibling (same.register ▸ given) ht', hmatches⟩
  | @path name path given others reads found =>
      obtain ⟨t', ht', hmatches⟩ := finds path t found
      refine ⟨t', .path (same.register ▸ given) (fun u hu => ?_) reads ht', hmatches⟩
      rw [Scope.registers_eq_map same.members] at hu
      obtain ⟨v, hv, rfl⟩ := List.mem_map.1 hu
      exact others v hv

theorem DerivesAlong.transfer (finds : d.FindsAlike d') {ts : List Site} (h : d.DerivesAlong s ts)
    (same : s.Matches s') : ∃ ts', d'.DerivesAlong s' ts' ∧
      ts'.map (·.register) = ts.map (·.register) := by
  induction h generalizing s' with
  | last own => exact ⟨[], .last (same.register ▸ own), rfl⟩
  | step first rest ih =>
      obtain ⟨t', hrefers, hmatches⟩ := first.transfer finds same
      obtain ⟨ts', hchain, hregisters⟩ := ih hmatches
      refine ⟨t' :: ts', .step hrefers hchain, ?_⟩
      rw [List.map_cons, List.map_cons, hregisters, hmatches.register]

/-- Matching registers are derived to the same. -/
theorem deriveRegister_transfer (finds : d.FindsAlike d') (hs' : s' ∈ d'.sites)
    (same : s.Matches s') {r : Register} (h : d.deriveRegister s = .ok r) :
    d'.deriveRegister s' = .ok r := by
  obtain ⟨bases, hchain, rfl⟩ := exists_chain_of_deriveRegister h
  obtain ⟨bases', hchain', hregisters⟩ := hchain.transfer finds same
  rw [deriveRegister_eq_ok_iff hs']
  exact ⟨bases', hchain', by rw [hregisters, same.register]⟩

end Device

/-! ### Equal replacements -/

namespace Member

variable {f g : List Nat → Register → Register}

/-- Replacing the registers in a member gives the same in two places if matching registers are
replaced by the same. -/
theorem mapRegisters_congr (position position' : List Nat) (path path' : NodePath) : ∀ m : Member,
    (∀ r, m = .register r → f position r = g position' r) →
    (∀ is t t', Scope.site? ⟨position, path, m.members⟩ is = some t →
      Scope.site? ⟨position', path', m.members⟩ is = some t' →
      f t.position t.register = g t'.position t'.register) →
    m.mapRegisters f position = m.mapRegisters g position'
  | .register r, own, _ => congrArg Member.register (own r rfl)
  | .cluster c ms, _, inside => by
      refine congrArg (Member.cluster c) (List.ext_getElem? fun i => ?_)
      rw [getElem?_mapRegistersAll, getElem?_mapRegistersAll]
      cases hi : ms[i]? with
      | none => rfl
      | some m =>
          have hsmaller : sizeOf m < sizeOf ms := List.sizeOf_lt_of_mem (List.mem_of_getElem? hi)
          rw [Option.map_some, Option.map_some, Nat.zero_add]
          refine congrArg some (mapRegisters_congr _ _ (path.child m.name) (path'.child m.name) m
            ?_ ?_)
          · rintro r rfl
            exact inside [i] _ _ (Scope.site?_register hi) (Scope.site?_register hi)
          · intro is t t' ht ht'
            cases m with
            | register r => cases is <;> cases ht
            | cluster c' ms' =>
                refine inside (i :: is) t t' ?_ ?_
                · exact (Scope.site?_cluster hi).trans ht
                · exact (Scope.site?_cluster hi).trans ht'
termination_by m => sizeOf m

/-- Replacing the registers in the members of a scope gives the same in two places if matching
registers are replaced by the same. -/
theorem mapRegistersAll_congr {s t : Scope} (members : s.members = t.members)
    (inside : ∀ is u v, s.site? is = some u → t.site? is = some v →
      f u.position u.register = g v.position v.register) :
    mapRegistersAll f s.position 0 s.members = mapRegistersAll g t.position 0 t.members := by
  obtain ⟨position, path, ms⟩ := s
  obtain ⟨position', path', ms'⟩ := t
  obtain rfl : ms = ms' := members
  have hcluster := mapRegisters_congr position position' path path' (.cluster { name := "" } ms)
    (fun r hr => by cases hr) inside
  exact (Member.cluster.inj hcluster).2

end Member

/-- Peripherals with the same members get the same members when registers are derived. -/
theorem Device.members_deriveRegisters {d d' : Device} (finds : d.FindsAlike d')
    {f f' : List Nat → Register → Register}
    (hf : ∀ s ∈ d.sites, d.deriveRegister s = .ok (f s.position s.register))
    (hf' : ∀ s ∈ d'.sites, d'.deriveRegister s = .ok (f' s.position s.register)) {i j : Nat}
    {p q : Peripheral} (hp : d.peripherals[i]? = some p) (hq : d'.peripherals[j]? = some q)
    (members : p.members = q.members) :
    p.members.map (Member.mapRegistersAll f [i] 0) =
      q.members.map (Member.mapRegistersAll f' [j] 0) := by
  rw [← members]
  cases hms : p.members with
  | none => rfl
  | some ms =>
      have hlist : p.memberList = q.memberList := by rw [Peripheral.memberList, members]; rfl
      have hmember : p.memberList = ms := by rw [Peripheral.memberList, hms]; rfl
      have hall := Member.mapRegistersAll_congr (f := f) (g := f') (s := p.scope d.path i)
        (t := q.scope d'.path j) hlist ?_
      · change Member.mapRegistersAll f [i] 0 p.memberList =
          Member.mapRegistersAll f' [j] 0 q.memberList at hall
        rw [← hlist, hmember] at hall
        rw [Option.map_some, Option.map_some, hall]
      · intro is t t' ht ht'
        obtain ⟨u, hu, hmatches⟩ :=
          Scope.exists_matching_site (t := q.scope d'.path j) hlist ht
        obtain rfl : u = t' := Option.some.inj (hu.symm.trans ht')
        have hsite := mem_sites_of_site? (site?_cons_eq_some_iff.2 ⟨p, hp, ht⟩)
        have hsite' := mem_sites_of_site? (site?_cons_eq_some_iff.2 ⟨q, hq, ht'⟩)
        have hsame := deriveRegister_transfer finds hsite' hmatches (hf t hsite)
        rw [hf' u hsite'] at hsame
        exact (Except.ok.inj hsame).symm

end RegisterMap.Draft
