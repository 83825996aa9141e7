import RegisterMap.Proofs.Aliases
import RegisterMap.Proofs.Completeness

/-!
# Registers of a device and their drafts

A run that gives a device has made it from a placed draft, and has added the aliases last
(`exists_placed_of_parse`). Every register of the device is made from a register of the draft, so it
has what all registers of the draft have.
-/

namespace RegisterMap

/-! ### One register -/

namespace Register

/-- The register shows the size and the fields of its draft, and has no aliases yet. -/
structure MadeFrom (dr : Draft.Register) (r : Register) : Prop where
  size : dr.effective.size = some r.size
  positive : 0 < r.size
  plain : r.bitBand = none
  fields : ∀ f ∈ r.fields, f.bitBand = none ∧ ∃ df ∈ dr.fieldList, df.bitRange = some f.bitRange

theorem madeFrom_ofDraft {path : NodePath} {dr : Draft.Register} {r : Register}
    (h : ofDraft path dr = .ok r) : MadeFrom dr r := by
  obtain ⟨offset, -, h⟩ := bind_eq_ok_iff.1 h
  obtain ⟨size, hsize, h⟩ := bind_eq_ok_iff.1 h
  obtain ⟨resetValue, -, h⟩ := bind_eq_ok_iff.1 h
  obtain ⟨address, -, h⟩ := bind_eq_ok_iff.1 h
  obtain ⟨fields, hfields, h⟩ := bind_eq_ok_iff.1 h
  cases h
  obtain ⟨hgiven, hpositive⟩ := Draft.Register.size_eq_ok_iff.1 hsize
  refine ⟨hgiven, hpositive, rfl, fun f hf => ?_⟩
  obtain ⟨df, hdf, hmade⟩ := exists_mem_left (makeNamed_eq_ok_iff.1 hfields).1 hf
  obtain ⟨range, hrange, hmade⟩ := bind_eq_ok_iff.1 hmade
  obtain ⟨enums, -, hmade⟩ := bind_eq_ok_iff.1 hmade
  cases hmade
  exact ⟨rfl, df, hdf, Member.resolved_eq_ok_iff.1 hrange⟩

/-- Aliases change a field of a register only in its aliases. -/
theorem exists_field_of_withAliases {regions : List BitBand.ConfiguredRegion} {r r' : Register}
    (h : r.withAliases regions = .ok r') {f' : Field} (hf' : f' ∈ r'.fields) :
    ∃ f ∈ r.fields, f' = { f with bitBand := f'.bitBand } := by
  unfold Register.withAliases at h
  split at h
  · cases h
    exact ⟨f', hf', rfl⟩
  · obtain ⟨fields, hfields, h⟩ := bind_eq_ok_iff.1 h
    cases h
    obtain ⟨f, hf, hstep⟩ := exists_mem_left (mapM_eq_ok_iff.1 hfields) hf'
    refine ⟨f, hf, ?_⟩
    unfold Field.withAliases at hstep
    split at hstep
    · cases hstep
      rfl
    · cases hstep

end Register

/-! ### All registers -/

namespace Member

variable {P : Draft.Member → Prop}

mutual

theorem exists_draft_of_register : ∀ (path : NodePath) (dm : Draft.Member) {m : Member},
    ofDraft path dm = .ok m → dm.Each P → ∀ r ∈ m.registers,
      ∃ path dr, P (.register dr) ∧ Register.ofDraft path dr = .ok r
  | path, .register dr, m, h, hP, r, hr => by
      obtain ⟨r', hr', h⟩ := bind_eq_ok_iff.1 h
      cases h
      obtain rfl := List.mem_singleton.1 hr
      exact ⟨path, dr, hP, hr'⟩
  | path, .cluster c dms, m, h, hP, r, hr => by
      obtain ⟨c', -, h⟩ := bind_eq_ok_iff.1 h
      obtain ⟨ms, hms, h⟩ := bind_eq_ok_iff.1 h
      obtain ⟨_, -, h⟩ := bind_eq_ok_iff.1 h
      cases h
      exact exists_draft_of_registerAll path dms hms hP.2 r hr

theorem exists_draft_of_registerAll :
    ∀ (path : NodePath) (dms : List Draft.Member) {ms : List Member},
      ofDraftAll path dms = .ok ms → Draft.Member.EachAll P dms → ∀ r ∈ registersAll ms,
        ∃ path dr, P (.register dr) ∧ Register.ofDraft path dr = .ok r
  | _, [], _, h, _, r, hr => by
      cases h
      cases hr
  | path, dm :: dms, _, h, hP, r, hr => by
      obtain ⟨m, ms, hm, hms, rfl⟩ := cons_eq_ok_iff.1 h
      rw [registersAll, List.mem_append] at hr
      rcases hr with hr | hr
      · exact exists_draft_of_register (path.child dm.name) dm hm hP.1 r hr
      · exact exists_draft_of_registerAll path dms hms hP.2 r hr

end

variable {regions : List BitBand.ConfiguredRegion}

mutual

theorem registers_withAliases : ∀ (m : Member) {m' : Member}, m.withAliases regions = .ok m' →
    List.Forall₂ (fun r r' => r.withAliases regions = .ok r') m.registers m'.registers
  | .register r, _, h => by
      obtain ⟨r', hr', h⟩ := bind_eq_ok_iff.1 h
      cases h
      exact .cons hr' .nil
  | .cluster c ms, _, h => by
      obtain ⟨ms', hms', h⟩ := bind_eq_ok_iff.1 h
      cases h
      exact registersAll_withAliases ms hms'

theorem registersAll_withAliases :
    ∀ (ms : List Member) {ms' : List Member}, withAliasesAll regions ms = .ok ms' →
      List.Forall₂ (fun r r' => r.withAliases regions = .ok r') (registersAll ms)
        (registersAll ms')
  | [], _, h => by
      cases h
      exact .nil
  | m :: ms, _, h => by
      obtain ⟨m', ms', hm', hms', rfl⟩ := cons_eq_ok_iff.1 h
      exact List.rel_append (registers_withAliases m hm') (registersAll_withAliases ms hms')

end

end Member

namespace Device

/-- Every register of a device is made from a register of its draft. -/
theorem exists_draft_of_register {P : Draft.Member → Prop} {draft : Draft.Device} {d : Device}
    (h : (ofDraft draft).result = .ok d) (hP : Draft.Member.EachAll P draft.elements)
    {r : Register} (hr : r ∈ d.registers) :
    ∃ path dr, P (.register dr) ∧ Register.ofDraft path dr = .ok r := by
  obtain ⟨ps, hps, -, rfl⟩ := ofDraft_eq_ok_iff.1 h
  rw [registers_eq] at hr
  obtain ⟨p, hp, hr⟩ := List.mem_flatMap.1 hr
  obtain ⟨dp, hdp, hmade⟩ := exists_mem_left hps hp
  obtain ⟨address, -, hmade⟩ := bind_eq_ok_iff.1 hmade
  obtain ⟨ms, hms, hmade⟩ := bind_eq_ok_iff.1 hmade
  obtain ⟨_, -, hmade⟩ := bind_eq_ok_iff.1 hmade
  cases hmade
  have hmembers := (Draft.Member.eachAll_iff.1 hP _ (List.mem_map_of_mem hdp)).2
  exact Member.exists_draft_of_registerAll _ dp.memberList hms hmembers r hr

/-- Aliases are added register by register. -/
theorem registers_withAliases {regions : List BitBand.ConfiguredRegion} {d d' : Device}
    (h : (d.withAliases regions).result = .ok d') :
    List.Forall₂ (fun r r' => r.withAliases regions = .ok r') d.registers d'.registers := by
  obtain ⟨ps, hps, rfl⟩ := withAliases_eq_ok_iff.1 h
  rw [registers_eq, registers_eq]
  refine List.rel_flatMap hps fun p p' hp => ?_
  obtain ⟨ms, hms, hp⟩ := bind_eq_ok_iff.1 hp
  cases hp
  exact Member.registersAll_withAliases p.members hms

end Device

/-- A run that gives a device has made it from a placed draft, and has added the aliases last. -/
theorem exists_placed_of_parse {source : Source} {config : Config} {d : Device}
    (h : (parse source config).result = .ok d) :
    ∃ root regions placed plain, source.read = .ok root ∧ config.regions = .ok regions ∧
      Draft.Reaches config root .placed placed ∧ (Device.ofDraft placed).result = .ok plain ∧
      (plain.withAliases regions).result = .ok d := by
  obtain ⟨regions, root, built, hregions, hroot, hbuilt, h⟩ := parse_eq_ok_iff.1 h
  obtain ⟨derived, hderived, h⟩ := bind_eq_ok_iff.1 h
  obtain ⟨expanded, hexpanded, h⟩ := bind_eq_ok_iff.1 h
  obtain ⟨linked, hlinked, h⟩ := bind_eq_ok_iff.1 h
  obtain ⟨placed, hplaced, h⟩ := bind_eq_ok_iff.1 h
  obtain ⟨plain, hplain, h⟩ := bind_eq_ok_iff.1 h
  refine ⟨root, regions, placed, plain, hroot, hregions, ?_, hplain, h⟩
  exact .place (.link (.exclude (.expand (.derive (.build hbuilt) hderived) hexpanded) rfl)
    hlinked) hplaced

end RegisterMap
