import RegisterMap.Proofs.EqualScopes
import RegisterMap.Proofs.Instances
import RegisterMap.Proofs.Relocation
import RegisterMap.Proofs.Stages

/-!
# Clones

A peripheral that is derived from another one and gives nothing but its name and its address is a
clone: what is in the device in its place is the other peripheral, moved to its path and its address
(`parse_relocates_clone`).

The two have the same members when peripherals are derived, before references between registers are
followed. Every later stage works on each of them for itself and gives the same for both
(`Draft.Peripheral.Clones`), until they are placed and published.
-/

namespace RegisterMap

namespace Draft.Peripheral

/-- The peripheral gives nothing that describes what is in it. -/
structure Bare (p : Peripheral) : Prop where
  description : p.description = none
  groupName : p.groupName = none
  version : p.version = none
  addressBlocks : p.addressBlocks = none
  props : p.props = {}
  members : p.members = none

instance (p : Peripheral) : Decidable p.Bare :=
  decidable_of_iff (p.description = none ∧ p.groupName = none ∧ p.version = none ∧
      p.addressBlocks = none ∧ p.props = {} ∧ p.members.isNone)
    ⟨fun ⟨description, groupName, version, blocks, props, members⟩ =>
      ⟨description, groupName, version, blocks, props, Option.isNone_iff_eq_none.1 members⟩,
    fun bare => ⟨bare.description, bare.groupName, bare.version, bare.addressBlocks, bare.props,
      Option.isNone_iff_eq_none.2 bare.members⟩⟩

/-- The peripherals agree in everything but their names, addresses, interrupts and alternates. -/
structure Clones (p q : Peripheral) : Prop where
  description : q.description = p.description
  groupName : q.groupName = p.groupName
  version : q.version = p.version
  addressBlocks : q.addressBlocks = p.addressBlocks
  effective : q.effective = p.effective
  members : q.members = p.members

/-! ### Stages -/

theorem Bare.clones_derive {q : Peripheral} (bare : q.Bare) (p : Peripheral)
    (defaults : RegisterProperties) :
    (p.withDefaults defaults).Clones ((q.derive p).withDefaults defaults) := by
  have hprops : q.props.inherit p.props = p.props := by
    rw [bare.props]
    rfl
  constructor
  · change q.description.or p.description = p.description
    rw [bare.description, Option.none_or]
  · change q.groupName.or p.groupName = p.groupName
    rw [bare.groupName, Option.none_or]
  · change q.version.or p.version = p.version
    rw [bare.version, Option.none_or]
  · change q.addressBlocks.or p.addressBlocks = p.addressBlocks
    rw [bare.addressBlocks, Option.none_or]
  · change (q.props.inherit p.props).inherit defaults = p.props.inherit defaults
    rw [hprops]
  · change (q.members.or p.members).map (Member.withDefaultsAll
      ((q.props.inherit p.props).inherit defaults)) =
        p.members.map (Member.withDefaultsAll (p.props.inherit defaults))
    rw [bare.members, Option.none_or, hprops]

/-- What a bare peripheral is derived to is a clone of what its base is derived to. -/
theorem Bare.clones {d : Device} (names : (d.peripherals.map (·.name)).Nodup)
    {p p' q q' : Peripheral} (bare : q.Bare) (hp : p ∈ d.peripherals)
    (derived : q.derivedFrom = some p.name) (hp' : d.DerivesTo p p') (hq' : d.DerivesTo q q') :
    p'.Clones q' := by
  obtain ⟨bases, hbases, rfl⟩ := hp'
  obtain ⟨others, hothers, rfl⟩ := hq'
  cases hothers with
  | last own =>
      rw [own] at derived
      cases derived
  | step mem given rest =>
      have hname := Option.some.inj (derived.symm.trans given)
      obtain rfl := List.inj_on_of_nodup_map names hp mem hname
      rw [rest.unique names hbases]
      exact bare.clones_derive _ _

theorem Clones.expanded {p q : Peripheral} (clones : p.Clones q) : p.expanded.Clones q.expanded :=
  { clones with members := congrArg (Option.map Member.expandedAll) clones.members }

theorem Clones.linked {d : Device} {p p' q q' : Peripheral} (clones : p.Clones q)
    (hp : d.Links p p') (hq : d.Links q q') : p'.Clones q' := by
  obtain ⟨a, ha, hp'⟩ := hp.inside
  obtain ⟨b, hb, hq'⟩ := hq.inside
  have members := members_linkInside ha hb clones.members
  rw [hp', hq', eq_of_linkInside ha, eq_of_linkInside hb]
  exact { clones with members }

end Draft.Peripheral

/-! ### Publication -/

/-- The first peripheral is the second one, moved to another path and another address with
everything in it. -/
structure Peripheral.RelocatedFrom (q p : Peripheral) : Prop where
  description : q.description = p.description
  groupName : q.groupName = p.groupName
  version : q.version = p.version
  addressBlocks : q.addressBlocks = p.addressBlocks
  properties : q.properties = p.properties
  inside : ∀ path ∈ Member.pathsAll p.members, p.path.parts <+: path.parts
  members : q.members = Member.relocateAll ⟨p.path, q.path, q.address - p.address⟩ p.members

theorem Peripheral.publish_nil_eq_ok {path : NodePath} {dp : Draft.Peripheral} {p : Peripheral}
    (h : publish [] path dp = .ok p) : ofDraft path dp = .ok p := by
  obtain ⟨made, hmade, h⟩ := bind_eq_ok_iff.1 h
  rw [withAliases_nil] at h
  cases h
  exact hmade

/-- Clones that are placed and published are moved against each other. -/
theorem Draft.Peripheral.Clones.relocatedFrom {dp dq : Draft.Peripheral} {path path' : NodePath}
    {p q : RegisterMap.Peripheral} (clones : dp.Clones dq)
    (hp : RegisterMap.Peripheral.publish [] path dp.placeAll = .ok p)
    (hq : RegisterMap.Peripheral.publish [] path' dq.placeAll = .ok q) : q.RelocatedFrom p := by
  obtain ⟨_, haddress, hp⟩ := bind_eq_ok_iff.1 (RegisterMap.Peripheral.publish_nil_eq_ok hp)
  obtain ⟨ms, hms, hp⟩ := bind_eq_ok_iff.1 hp
  obtain ⟨_, -, hp⟩ := bind_eq_ok_iff.1 hp
  obtain ⟨_, haddress', hq⟩ := bind_eq_ok_iff.1 (RegisterMap.Peripheral.publish_nil_eq_ok hq)
  obtain ⟨ms', hms', hq⟩ := bind_eq_ok_iff.1 hq
  obtain ⟨_, -, hq⟩ := bind_eq_ok_iff.1 hq
  cases haddress
  cases haddress'
  cases hp
  cases hq
  have memberList : dq.memberList = dp.memberList := by
    rw [Draft.Peripheral.memberList, clones.members, Draft.Peripheral.memberList]
  rw [Draft.Peripheral.memberList_placeAll, ← Draft.Member.placeAllAt_eq_map] at hms hms'
  rw [memberList, Member.ofDraftAll_elsewhere path' (dq.baseAddress.getD 0) hms] at hms'
  cases hms'
  exact ⟨clones.description, clones.groupName, clones.version,
    congrArg (Option.getD · []) clones.addressBlocks, clones.effective,
    Member.prefix_paths_ofDraftAll path _ hms, rfl⟩

/-! ### Runs -/

namespace Draft

/-- What clones of a built draft are derived to agree also when their registers are derived. -/
theorem Device.exists_clones_of_resolveDerivations {d derived : Device} (settled : d.Settled)
    (h : d.resolveDerivations.result = .ok derived) {p q : Peripheral} (hp : p ∈ d.peripherals)
    (hq : q ∈ d.peripherals) (given : q.derivedFrom = some p.name) (bare : q.Bare) :
    ∃ p' ∈ derived.peripherals, ∃ q' ∈ derived.peripherals, p'.Clones q' ∧
      (p'.name = p.name ∧ p'.dim = p.dim) ∧ q'.name = q.name ∧ q'.dim = q.dim := by
  obtain ⟨middle, f, -, hps, hf, rfl⟩ := resolveDerivations_eq_ok settled h
  obtain ⟨p₁, hp₁, hpderived⟩ := exists_mem_right hps hp
  obtain ⟨q₁, hq₁, hqderived⟩ := exists_mem_right hps hq
  obtain ⟨i, hi⟩ := List.mem_iff_getElem?.1 hp₁
  obtain ⟨j, hj⟩ := List.mem_iff_getElem?.1 hq₁
  have clones := bare.clones settled.names hp given hpderived hqderived
  -- References are followed in each of the two scopes, but lead to matching registers.
  have members := members_deriveRegisters (.refl middle) hf hf hj hi clones.members
  have replaced {i : Nat} {p : Peripheral} (hi : middle.peripherals[i]? = some p) :
      { p with members := p.members.map (Member.mapRegistersAll f [i] 0) } ∈
        (middle.mapRegisters f).peripherals := by
    refine List.mem_iff_getElem?.2 ⟨i, ?_⟩
    rw [getElem?_mapRegisters, hi, Option.map_some]
  refine ⟨_, replaced hi, _, replaced hj, { clones with members }, ?_, ?_⟩
  · exact ⟨hpderived.name, hpderived.dim⟩
  · exact ⟨hqderived.name, hqderived.dim⟩

theorem Peripheral.mem_expansion_self {p : Peripheral} (plain : p.dim = none) :
    p.expanded ∈ p.expansion := by
  rw [expansion, replacements_eq_singleton plain]
  exact List.mem_singleton_self _

end Draft

theorem relocatedFrom_of_complete {config : Config} {draft : Draft.Device} {d : Device}
    (settled : draft.Settled) (unlinked : draft.Every Draft.Header.Unlinked)
    (h : complete config [] draft = .ok d) {dp dq : Draft.Peripheral} (hdp : dp ∈ draft.peripherals)
    (hdq : dq ∈ draft.peripherals) (plain : dp.dim = none) (plain' : dq.dim = none)
    (given : dq.derivedFrom = some dp.name) (bare : dq.Bare) {p q : Peripheral}
    (hp : p ∈ d.peripherals) (hq : q ∈ d.peripherals) (name : p.name = dp.name)
    (name' : q.name = dq.name) : q.RelocatedFrom p := by
  obtain ⟨derived, expanded, hderived, hexpanded, names, unlinkedExpanded, hfinish⟩ :=
    exists_expanded_of_complete unlinked h
  obtain ⟨dp₁, hdp₁, dq₁, hdq₁, clones, ⟨hpname, hpdim⟩, hqname, hqdim⟩ :=
    Draft.Device.exists_clones_of_resolveDerivations settled hderived hdp hdq given bare
  have remains {x : Draft.Peripheral} (hx : x ∈ derived.peripherals) (plain : x.dim = none) :
      x.expanded ∈ expanded.peripherals := by
    obtain ⟨-, -, rfl⟩ := Draft.Device.expand_eq_ok_iff.1 hexpanded
    exact List.mem_flatMap_of_mem hx (Draft.Peripheral.mem_expansion_self plain)
  obtain ⟨dp₂, hplinks, hpmade⟩ := exists_links_of_name names unlinkedExpanded hfinish
    (remains hdp₁ (hpdim.trans plain)) hp (name.trans hpname.symm)
  obtain ⟨dq₂, hqlinks, hqmade⟩ := exists_links_of_name names unlinkedExpanded hfinish
    (remains hdq₁ (hqdim.trans plain')) hq (name'.trans hqname.symm)
  exact (clones.expanded.linked hplinks hqlinks).relocatedFrom hpmade hqmade

/-- In a device without bit-band aliases, a peripheral that is derived from another one and gives
nothing but its name and its address is the other one, moved to its own path and address. -/
theorem parse_relocates_clone {source : Source} {config : Config} {root : Element}
    {draft : Draft.Device} {d : Device} (unaliased : config.enableBitBand = false)
    (hd : (parse source config).result = .ok d) (hroot : source.read = .ok root)
    (hdraft : (Draft.buildDevice root).result = .ok draft) {dp dq : Draft.Peripheral}
    (hdp : dp ∈ draft.peripherals) (hdq : dq ∈ draft.peripherals) (plain : dp.dim = none)
    (plain' : dq.dim = none) (given : dq.derivedFrom = some dp.name) (bare : dq.Bare)
    {p q : Peripheral} (hp : p ∈ d.peripherals) (hq : q ∈ d.peripherals) (name : p.name = dp.name)
    (name' : q.name = dq.name) : q.RelocatedFrom p := by
  have hregions : config.regions = .ok [] := by
    rw [Config.regions, unaliased, if_neg Bool.false_ne_true]
  rw [parse_eq hregions hroot, hdraft, ok_bind] at hd
  exact relocatedFrom_of_complete (Draft.settled_buildDevice root draft hdraft)
    (Draft.unlinked_buildDevice root draft hdraft) hd hdp hdq plain plain' given bare hp hq name
    name'

/-! ### A document with a clone -/

open Element in
/-- A peripheral with registers that are derived from another one in both ways and with an array
inside of an array, and a clone of it. -/
def cloneRoot : Element :=
  node "device" [leaf "name" "D", leaf "size" "8", leaf "resetValue" "0", node "peripherals" [
    node "peripheral" [leaf "name" "P", leaf "baseAddress" "0", node "registers" [
      node "register" [leaf "name" "A", leaf "addressOffset" "0"],
      { node "register" [leaf "name" "B", leaf "addressOffset" "1"] with
        attributes := [("derivedFrom", "A")] },
      { node "register" [leaf "name" "C", leaf "addressOffset" "2"] with
        attributes := [("derivedFrom", "P.A")] },
      node "cluster" [leaf "dim" "2", leaf "dimIncrement" "2", leaf "name" "E%s",
        leaf "addressOffset" "4",
        node "register" [leaf "dim" "2", leaf "dimIncrement" "1", leaf "name" "R%s",
          leaf "addressOffset" "0"]]]],
    { node "peripheral" [leaf "name" "Q", leaf "baseAddress" "16"] with
      attributes := [("derivedFrom", "P")] }]]

/-- The lines of the document with these elements. -/
def cloneLines : List String := [
  "<device><name>D</name><size>8</size><resetValue>0</resetValue><peripherals>",
  "<peripheral><name>P</name><baseAddress>0</baseAddress><registers>",
  "<register><name>A</name><addressOffset>0</addressOffset></register>",
  "<register derivedFrom=\"A\"><name>B</name><addressOffset>1</addressOffset></register>",
  "<register derivedFrom=\"P.A\"><name>C</name><addressOffset>2</addressOffset></register>",
  "<cluster><dim>2</dim><dimIncrement>2</dimIncrement><name>E%s</name>",
  "<addressOffset>4</addressOffset>",
  "<register><dim>2</dim><dimIncrement>1</dimIncrement><name>R%s</name>",
  "<addressOffset>0</addressOffset></register></cluster>",
  "</registers></peripheral>",
  "<peripheral derivedFrom=\"P\"><name>Q</name><baseAddress>16</baseAddress></peripheral>",
  "</peripherals></device>"]

set_option maxRecDepth 10000 in
theorem read_clone : (Source.text (String.join cloneLines)).read = .ok cloneRoot := by
  have hlines : cloneLines = List.map String.ofList [_, _, _, _, _, _, _, _, _, _, _, _] := rfl
  change Markup.readText (String.join cloneLines) = .ok cloneRoot
  refine Markup.readText_join hlines ?_ ?_ ?_
  · decide +kernel
  · rfl
  · decide +kernel

/-- All seven registers of the peripheral are moved to its clone. -/
theorem parse_relocates_clone_nested :
    ∃ d p q, (parse (.text (String.join cloneLines)) { tolerateOverlaps := true }).result = .ok d ∧
      d.peripherals = [p, q] ∧ p.address = 0 ∧ q.address = 16 ∧
      (Member.registersAll p.members).length = 7 ∧ q.RelocatedFrom p := by
  have hparsed : ∃ d,
      (parse (.text (String.join cloneLines)) { tolerateOverlaps := true }).result = .ok d ∧
      d.peripherals.map (fun p => (p.name, p.address, (Member.registersAll p.members).length)) ==
        [("P", 0, 7), ("Q", 16, 7)] := by
    rw [result_parse read_clone rfl]
    apply exists_ok_of_any
    decide +kernel
  have hbuilt : (Draft.buildDevice cloneRoot).result.toOption.any fun draft =>
      draft.peripherals.any fun dp => draft.peripherals.any fun dq =>
        dp.name = "P" ∧ dp.dim = none ∧ dq.name = "Q" ∧ dq.dim = none ∧
          dq.derivedFrom = some "P" ∧ dq.Bare := by
    decide +kernel
  obtain ⟨d, hd, hgiven⟩ := hparsed
  obtain ⟨draft, hdraft, hpair⟩ := exists_ok_of_any hbuilt
  obtain ⟨dp, hdp, hpair⟩ := List.any_eq_true.1 hpair
  obtain ⟨dq, hdq, hpair⟩ := List.any_eq_true.1 hpair
  obtain ⟨hdpname, plain, hdqname, plain', derived, bare⟩ := of_decide_eq_true hpair
  obtain ⟨p, ps, hps, hp, hrest⟩ := List.map_eq_cons_iff.1 (eq_of_beq hgiven)
  obtain ⟨q, qs, rfl, hq, hrest⟩ := List.map_eq_cons_iff.1 hrest
  obtain rfl := List.map_eq_nil_iff.1 hrest
  simp only [Prod.mk.injEq] at hp hq
  obtain ⟨hpname, hpaddress, hpregisters⟩ := hp
  obtain ⟨hqname, hqaddress, -⟩ := hq
  have hpmem : p ∈ d.peripherals := by simp [hps]
  have hqmem : q ∈ d.peripherals := by simp [hps]
  exact ⟨d, p, q, hd, hps, hpaddress, hqaddress, hpregisters,
    parse_relocates_clone rfl hd read_clone hdraft hdp hdq plain plain'
      (derived.trans (congrArg some hdpname.symm)) bare hpmem hqmem (hpname.trans hdpname.symm)
      (hqname.trans hdqname.symm)⟩

end RegisterMap
