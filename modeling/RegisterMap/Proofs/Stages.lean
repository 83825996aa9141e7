import RegisterMap.Parse
import RegisterMap.Proofs.Addressing
import RegisterMap.Proofs.Alternates
import RegisterMap.Proofs.Instances
import RegisterMap.Proofs.Publication

/-!
# The stages of a run

The events that are noted on the way have no influence on the result. What is left of `parse` is a
sequence of stages on drafts (`parse_eq`, `complete`), each with its own module, and a last one that
makes each placed peripheral for itself (`Device.publish_eq_ok_iff`). If no aliases are wanted,
adding them changes nothing, so the last stage is the same for every configuration.
-/

namespace RegisterMap

/-! ### Interrupts -/

/-- The first definition of each interrupt. -/
def Interrupt.firstOfEach : List Interrupt → List Interrupt
  | [] => []
  | i :: is => i :: (firstOfEach is).filter (·.name ≠ i.name)

theorem collectInterrupts_eq (known is : List Interrupt) :
    (collectInterrupts known is).result =
      .ok (known ++ (Interrupt.firstOfEach is).filter (·.name ∉ known.map (·.name))) := by
  induction is generalizing known with
  | nil => simp [collectInterrupts, Interrupt.firstOfEach]
  | cons i is ih =>
      rw [collectInterrupts, Interrupt.firstOfEach]
      cases hknown : known.find? (·.name == i.name) with
      | none =>
          have hnew : i.name ∉ known.map (·.name) := by
            intro hmem
            obtain ⟨k, hk, hname⟩ := List.mem_map.1 hmem
            exact List.find?_eq_none.1 hknown k hk (beq_iff_eq.2 hname)
          dsimp only
          rw [ih, List.append_assoc, List.filter_cons_of_pos (by simpa using hnew),
            List.filter_filter, List.singleton_append]
          congr 3
          refine List.filter_congr fun j _ => ?_
          simp
      | some first =>
          have htaken : i.name ∈ known.map (·.name) := by
            have hname : first.name = i.name := by simpa using List.find?_some hknown
            exact hname ▸ List.mem_map_of_mem (List.mem_of_find?_eq_some hknown)
          dsimp only
          rw [Logged.result_bind, Logged.result_note]
          change (collectInterrupts known is).result = _
          rw [ih, List.filter_cons_of_neg (by simpa using htaken), List.filter_filter]
          congr 2
          refine List.filter_congr fun j _ => ?_
          by_cases hj : j.name = i.name
          · rw [hj]
            simp [htaken]
          · simp [hj]

theorem result_collectInterrupts (is : List Interrupt) :
    (collectInterrupts [] is).result = .ok (Interrupt.firstOfEach is) := by
  rw [collectInterrupts_eq]
  simp

/-! ### Aliases -/

mutual

theorem Member.withAliases_nil : ∀ m : Member, m.withAliases [] = .ok m
  | .register _ => rfl
  | .cluster c ms => by
      rw [Member.withAliases, Member.withAliasesAll_nil ms]
      rfl

theorem Member.withAliasesAll_nil : ∀ ms : List Member, Member.withAliasesAll [] ms = .ok ms
  | [] => rfl
  | m :: ms => by
      rw [Member.withAliasesAll, Member.withAliases_nil m, Member.withAliasesAll_nil ms]
      rfl

end

theorem Peripheral.withAliases_nil (p : Peripheral) : p.withAliases [] = .ok p := by
  rw [Peripheral.withAliases, Member.withAliasesAll_nil]
  rfl

theorem Device.withAliases_eq_ok_iff {regions : List BitBand.ConfiguredRegion} {d d' : Device} :
    (d.withAliases regions).result = .ok d' ↔
      ∃ ps, List.Forall₂ (fun p p' => p.withAliases regions = .ok p') d.peripherals ps ∧
        d' = { d with peripherals := ps } := by
  constructor
  · intro h
    obtain ⟨ps, hps, h⟩ := Logged.bind_eq_ok_iff.1 h
    cases h
    exact ⟨ps, mapM_eq_ok_iff.1 hps, rfl⟩
  · rintro ⟨ps, hps, rfl⟩
    rw [Device.withAliases, Logged.bind_eq_ok_iff]
    exact ⟨ps, mapM_eq_ok_iff.2 hps, rfl⟩

theorem Device.withAliases_nil (d : Device) : (d.withAliases []).result = .ok d := by
  rw [Device.withAliases_eq_ok_iff]
  exact ⟨d.peripherals, List.forall₂_same.2 fun p _ => p.withAliases_nil, rfl⟩

/-! ### Publication -/

/-- The device of a placed draft with its aliases. -/
def Device.publish (regions : List BitBand.ConfiguredRegion) (draft : Draft.Device) :
    Except Error Device := do
  let device ← (Device.ofDraft draft).result
  (device.withAliases regions).result

/-- The peripheral of a placed draft with its aliases. -/
def Peripheral.publish (regions : List BitBand.ConfiguredRegion) (path : NodePath)
    (draft : Draft.Peripheral) : Except Error Peripheral := do
  let peripheral ← Peripheral.ofDraft path draft
  peripheral.withAliases regions

/-- The device with the attributes of a draft and the given peripherals. -/
def Device.assemble (draft : Draft.Device) (ps : List Peripheral) : Device where
  name := draft.name
  version := draft.version
  vendor := draft.vendor
  description := draft.description
  addressUnitBits := draft.addressUnitBits
  width := draft.width
  properties := draft.props
  peripherals := ps
  interrupts := Interrupt.firstOfEach (ps.flatMap (·.interrupts))

theorem Device.ofDraft_eq_ok_iff {draft : Draft.Device} {d : Device} :
    (Device.ofDraft draft).result = .ok d ↔
      ∃ ps, List.Forall₂ (fun dp p => Peripheral.ofDraft (draft.path.child dp.name) dp = .ok p)
          draft.peripherals ps ∧
        (draft.peripherals.map (·.name)).Nodup ∧ d = .assemble draft ps := by
  constructor
  · intro h
    obtain ⟨ps, hps, h⟩ := Logged.bind_eq_ok_iff.1 h
    obtain ⟨is, his, h⟩ := Logged.bind_eq_ok_iff.1 h
    rw [result_collectInterrupts] at his
    cases his
    cases h
    obtain ⟨hall, hnames, -⟩ := makeNamed_eq_ok_iff.1 hps
    exact ⟨ps, hall, hnames, rfl⟩
  · rintro ⟨ps, hall, hnames, rfl⟩
    rw [Device.ofDraft, Logged.bind_eq_ok_iff]
    refine ⟨ps, makeNamed_eq_ok_iff.2 ⟨hall, hnames, fun _ _ => List.not_mem_nil⟩, ?_⟩
    exact Logged.bind_eq_ok_iff.2 ⟨_, result_collectInterrupts _, rfl⟩

theorem Peripheral.interrupts_withAliases {regions : List BitBand.ConfiguredRegion}
    {p p' : Peripheral} (h : p.withAliases regions = .ok p') : p'.interrupts = p.interrupts := by
  obtain ⟨ms, -, h⟩ := bind_eq_ok_iff.1 h
  cases h
  rfl

theorem Peripheral.flatMap_interrupts_withAliases {regions : List BitBand.ConfiguredRegion}
    {ps ps' : List Peripheral}
    (h : List.Forall₂ (fun p p' => p.withAliases regions = .ok p') ps ps') :
    ps'.flatMap (·.interrupts) = ps.flatMap (·.interrupts) := by
  rw [List.flatMap_def, List.flatMap_def]
  exact congrArg List.flatten
    (map_eq_map_of_forall₂ h fun _ _ hp => (interrupts_withAliases hp).symm).symm

/-- A placed draft makes a device if each of its peripherals makes one for itself, and if their
names are distinct. -/
theorem Device.publish_eq_ok_iff {regions : List BitBand.ConfiguredRegion} {draft : Draft.Device}
    {d : Device} : Device.publish regions draft = .ok d ↔
      ∃ ps, List.Forall₂
          (fun dp p => Peripheral.publish regions (draft.path.child dp.name) dp = .ok p)
          draft.peripherals ps ∧
        (draft.peripherals.map (·.name)).Nodup ∧ d = .assemble draft ps := by
  have hassemble {ps ps' : List Peripheral}
      (h : List.Forall₂ (fun p p' => p.withAliases regions = .ok p') ps ps') :
      { Device.assemble draft ps with peripherals := ps' } = Device.assemble draft ps' := by
    unfold Device.assemble
    rw [Peripheral.flatMap_interrupts_withAliases h]
  constructor
  · intro h
    obtain ⟨made, hmade, h⟩ := bind_eq_ok_iff.1 h
    obtain ⟨ps, hps, hnames, rfl⟩ := Device.ofDraft_eq_ok_iff.1 hmade
    obtain ⟨ps', hps', rfl⟩ := Device.withAliases_eq_ok_iff.1 h
    exact ⟨ps', forall₂_bind_iff.2 ⟨ps, hps, hps'⟩, hnames, hassemble hps'⟩
  · rintro ⟨ps', h, hnames, rfl⟩
    obtain ⟨ps, hps, hps'⟩ := forall₂_bind_iff.1 h
    rw [Device.publish, bind_eq_ok_iff]
    refine ⟨_, Device.ofDraft_eq_ok_iff.2 ⟨ps, hps, hnames, rfl⟩, ?_⟩
    exact Device.withAliases_eq_ok_iff.2 ⟨ps', hps', (hassemble hps').symm⟩

theorem Peripheral.name_publish {regions : List BitBand.ConfiguredRegion} {path : NodePath}
    {dp : Draft.Peripheral} {p : Peripheral} (h : Peripheral.publish regions path dp = .ok p) :
    p.name = dp.name := by
  obtain ⟨made, hmade, h⟩ := bind_eq_ok_iff.1 h
  exact (Peripheral.shownAs_withAliases (Peripheral.shownAs_ofDraft hmade) h).name

theorem Peripheral.interrupts_publish {regions : List BitBand.ConfiguredRegion} {path : NodePath}
    {dp : Draft.Peripheral} {p : Peripheral} (h : Peripheral.publish regions path dp = .ok p) :
    p.interrupts = dp.interrupts := by
  obtain ⟨made, hmade, h⟩ := bind_eq_ok_iff.1 h
  rw [interrupts_withAliases h]
  obtain ⟨address, -, hmade⟩ := bind_eq_ok_iff.1 hmade
  obtain ⟨ms, -, hmade⟩ := bind_eq_ok_iff.1 hmade
  obtain ⟨_, -, hmade⟩ := bind_eq_ok_iff.1 hmade
  cases hmade
  rfl

theorem Device.nodup_names_of_publish {regions : List BitBand.ConfiguredRegion}
    {draft : Draft.Device} {d : Device} (h : Device.publish regions draft = .ok d) :
    (d.peripherals.map (·.name)).Nodup := by
  obtain ⟨ps, hps, names, rfl⟩ := Device.publish_eq_ok_iff.1 h
  have hsame : draft.peripherals.map (·.name) = ps.map (·.name) :=
    map_eq_map_of_forall₂ hps fun _ _ hp => (Peripheral.name_publish hp).symm
  exact hsame ▸ names

/-! ### Runs -/

/-- The draft without the peripherals of the given names. -/
def Draft.Device.without (draft : Draft.Device) (names : List String) : Draft.Device :=
  { draft with peripherals := draft.peripherals.filter (!·.isNamedIn names) }

theorem Draft.Device.nodup_names_without {draft : Draft.Device}
    (names : (draft.peripherals.map (·.name)).Nodup) (excluded : List String) :
    ((draft.without excluded).peripherals.map (·.name)).Nodup :=
  names.sublist (List.filter_sublist.map _)

/-- Resolving derivations is deriving the peripherals and then the registers. -/
theorem Draft.Device.result_resolveDerivations (d : Draft.Device) : d.resolveDerivations.result =
    (Prod.fst <$> d.derivePeripherals) >>= fun d => Prod.fst <$> d.deriveRegisters := by
  unfold resolveDerivations
  rw [Logged.result_bind, bind_map_left]
  congr 1
  funext ⟨middle, n⟩
  dsimp only
  rw [Logged.result_bind]
  change (middle.deriveRegisters >>= fun r => Except.ok r.1) = _
  exact bind_pure_comp ..

theorem Draft.Device.result_exclude (draft : Draft.Device) (names : List String) :
    (draft.exclude names).result = .ok (draft.without names) :=
  rfl

/-- The stages from an expanded draft on. -/
def finish (tolerant : Bool) (regions : List BitBand.ConfiguredRegion) (draft : Draft.Device) :
    Except Error Device := do
  let linked ← draft.resolveAlternates.result
  let placed ← (linked.resolveAddresses tolerant).result
  Device.publish regions placed

/-- The stages from a built draft on. -/
def complete (config : Config) (regions : List BitBand.ConfiguredRegion) (draft : Draft.Device) :
    Except Error Device := do
  let derived ← draft.resolveDerivations.result
  let expanded ← derived.expand.result
  finish config.tolerateOverlaps regions (expanded.without config.excluded)

/-- The draft of a peripheral is linked and placed, and makes the peripheral. -/
structure Draft.Device.Finishes (draft : Draft.Device) (tolerant : Bool)
    (regions : List BitBand.ConfiguredRegion) (linked : Peripheral) (p : RegisterMap.Peripheral) :
    Prop where
  placeable : linked.Placeable tolerant (draft.path.child linked.name)
  publishes :
    RegisterMap.Peripheral.publish regions (draft.path.child linked.name) linked.placeAll = .ok p

/-- An expanded draft with distinct names makes a device if its alternates exist, if each of its
peripherals can be linked, placed and published, and if they are clear of each other unless
conflicts are tolerated. -/
theorem finish_eq_ok_iff {tolerant : Bool} {regions : List BitBand.ConfiguredRegion}
    {draft : Draft.Device} {d : Device} (names : (draft.peripherals.map (·.name)).Nodup)
    (unlinked : ∀ dp ∈ draft.peripherals, dp.Unlinked) :
    finish tolerant regions draft = .ok d ↔ draft.AlternatesExist ∧ ∃ linked ps,
      List.Forall₂ draft.Links draft.peripherals linked ∧
      List.Forall₂ (draft.Finishes tolerant regions) linked ps ∧
      (tolerant = false → ∀ p ∈ linked, ∀ q ∈ linked, p.placeAll.ClearOf q.placeAll) ∧
      d = .assemble draft ps := by
  have hnames {linked : List Draft.Peripheral}
      (h : List.Forall₂ draft.Links draft.peripherals linked) : (linked.map (·.name)).Nodup := by
    rw [← map_eq_map_of_forall₂ h fun _ _ links => links.name.symm]
    exact names
  have hplaced {linked : List Draft.Peripheral}
      (h : List.Forall₂ draft.Links draft.peripherals linked) :=
    Draft.Device.resolveAddresses_eq_ok_iff (d := { draft with peripherals := linked }) tolerant
      (hnames h) (Draft.Device.symmetricAlternates_of_links h)
  constructor
  · intro h
    obtain ⟨_, hlinked, h⟩ := bind_eq_ok_iff.1 h
    obtain ⟨placed, haddresses, h⟩ := bind_eq_ok_iff.1 h
    obtain ⟨exist, linked, hlinks, rfl⟩ :=
      (Draft.Device.resolveAlternates_eq_ok_iff names unlinked).1 hlinked
    obtain ⟨placeable, clear, rfl⟩ := (hplaced hlinks _).1 haddresses
    obtain ⟨ps, hps, -, rfl⟩ := Device.publish_eq_ok_iff.1 h
    refine ⟨exist, linked, ps, hlinks, ?_, clear, rfl⟩
    have hboth := (List.forall₂_and_left _ _).2 ⟨placeable, List.forall₂_map_left_iff.1 hps⟩
    exact hboth.imp fun dp p h => ⟨h.1, h.2⟩
  · rintro ⟨exist, linked, ps, hlinks, hps, clear, rfl⟩
    refine bind_eq_ok_iff.2 ⟨{ draft with peripherals := linked },
      (Draft.Device.resolveAlternates_eq_ok_iff names unlinked).2 ⟨exist, linked, hlinks, rfl⟩, ?_⟩
    have placeable : ∀ dp ∈ linked, dp.Placeable tolerant (draft.path.child dp.name) := by
      intro dp hdp
      obtain ⟨p, -, hp⟩ := exists_mem_right hps hdp
      exact hp.placeable
    refine bind_eq_ok_iff.2 ⟨_, (hplaced hlinks _).2 ⟨placeable, clear, rfl⟩, ?_⟩
    refine Device.publish_eq_ok_iff.2 ⟨ps, ?_, ?_, rfl⟩
    · exact List.forall₂_map_left_iff.2 (hps.imp fun dp p h => h.publishes)
    · rw [Draft.Device.names_placeAll]
      exact hnames hlinks

/-- A peripheral of the device is made from a peripheral of the draft, which is linked and
placed. -/
theorem exists_links_of_mem {tolerant : Bool} {regions : List BitBand.ConfiguredRegion}
    {draft : Draft.Device} {d : Device} (names : (draft.peripherals.map (·.name)).Nodup)
    (unlinked : ∀ dp ∈ draft.peripherals, dp.Unlinked)
    (h : finish tolerant regions draft = .ok d) {p : Peripheral} (hp : p ∈ d.peripherals) :
    ∃ dp ∈ draft.peripherals, ∃ linked, draft.Links dp linked ∧
      Peripheral.publish regions (draft.path.child linked.name) linked.placeAll = .ok p := by
  obtain ⟨-, _, ps, hlinks, hps, -, rfl⟩ := (finish_eq_ok_iff names unlinked).1 h
  obtain ⟨linked, hlinked, finishes⟩ := exists_mem_left hps hp
  obtain ⟨dp, hdp, links⟩ := exists_mem_left hlinks hlinked
  exact ⟨dp, hdp, linked, links, finishes.publishes⟩

/-- A peripheral of the device is made from the draft of the same name. -/
theorem exists_links_of_name {tolerant : Bool} {regions : List BitBand.ConfiguredRegion}
    {draft : Draft.Device} {excluded : List String} {d : Device}
    (names : (draft.peripherals.map (·.name)).Nodup)
    (unlinked : ∀ dp ∈ draft.peripherals, dp.Unlinked)
    (h : finish tolerant regions (draft.without excluded) = .ok d) {dp : Draft.Peripheral}
    (hdp : dp ∈ draft.peripherals) {p : Peripheral} (hp : p ∈ d.peripherals)
    (name : p.name = dp.name) : ∃ linked, (draft.without excluded).Links dp linked ∧
      Peripheral.publish regions (draft.path.child linked.name) linked.placeAll = .ok p := by
  obtain ⟨dq, hdq, linked, links, publishes⟩ :=
    exists_links_of_mem (Draft.Device.nodup_names_without names excluded)
      (fun dp hdp => unlinked dp (List.mem_of_mem_filter hdp)) h hp
  have hname : dq.name = dp.name := by
    rw [← name, Peripheral.name_publish publishes]
    exact links.name.symm
  obtain rfl := List.inj_on_of_nodup_map names (List.mem_of_mem_filter hdq) hdp hname
  exact ⟨linked, links, publishes⟩

/-- A built draft that gets through all stages is expanded to a draft with distinct names and no
alternates yet, from which the excluded peripherals are removed before it is finished. -/
theorem exists_expanded_of_complete {config : Config} {regions : List BitBand.ConfiguredRegion}
    {draft : Draft.Device} {d : Device} (unlinked : draft.Every Draft.Header.Unlinked)
    (h : complete config regions draft = .ok d) :
    ∃ derived expanded, draft.resolveDerivations.result = .ok derived ∧
      derived.expand.result = .ok expanded ∧ (expanded.peripherals.map (·.name)).Nodup ∧
      (∀ p ∈ expanded.peripherals, p.Unlinked) ∧
      finish config.tolerateOverlaps regions (expanded.without config.excluded) = .ok d := by
  obtain ⟨derived, hderived, h⟩ := bind_eq_ok_iff.1 h
  obtain ⟨expanded, hexpanded, h⟩ := bind_eq_ok_iff.1 h
  have unlinkedDerived := Draft.Device.unlinked_resolveDerivations unlinked derived hderived
  have unlinkedExpanded := Draft.Device.unlinked_expand unlinkedDerived expanded hexpanded
  refine ⟨derived, expanded, hderived, hexpanded, ?_, fun p hp => (unlinkedExpanded p hp).1, h⟩
  obtain ⟨-, names, rfl⟩ := Draft.Device.expand_eq_ok_iff.1 hexpanded
  exact names

/-- A device that comes of all stages is published from a draft. -/
theorem exists_publish_of_complete {config : Config} {regions : List BitBand.ConfiguredRegion}
    {draft : Draft.Device} {d : Device} (h : complete config regions draft = .ok d) :
    ∃ placed, Device.publish regions placed = .ok d := by
  obtain ⟨_, -, h⟩ := bind_eq_ok_iff.1 h
  obtain ⟨_, -, h⟩ := bind_eq_ok_iff.1 h
  obtain ⟨_, -, h⟩ := bind_eq_ok_iff.1 h
  obtain ⟨placed, -, h⟩ := bind_eq_ok_iff.1 h
  exact ⟨placed, h⟩

theorem nodup_names_of_complete {config : Config} {regions : List BitBand.ConfiguredRegion}
    {draft : Draft.Device} {d : Device} (h : complete config regions draft = .ok d) :
    (d.peripherals.map (·.name)).Nodup := by
  obtain ⟨_, hpublish⟩ := exists_publish_of_complete h
  exact Device.nodup_names_of_publish hpublish

/-- The result of a run is that of its stages. -/
theorem parse_eq {source : Source} {config : Config} {regions : List BitBand.ConfiguredRegion}
    {root : Element} (hregions : config.regions = .ok regions) (hroot : source.read = .ok root) :
    (parse source config).result =
      (Draft.buildDevice root).result >>= complete config regions := by
  have haliased (d : Device) :
      (if config.enableBitBand then d.withAliases regions else pure d : Logged Device).result =
        (d.withAliases regions).result := by
    unfold Config.regions at hregions
    split at hregions
    · next henabled => rw [if_pos henabled]
    · next hdisabled =>
      cases hregions
      rw [if_neg hdisabled, Device.withAliases_nil]
      rfl
  unfold parse resolve complete finish Device.publish
  simp only [Logged.result_bind, Logged.result_ofExcept, hregions, hroot, ok_bind, haliased,
    Draft.Device.result_exclude, bind_assoc]

/-- A run that gives a device has got through all of its stages. -/
theorem parse_eq_ok_iff {source : Source} {config : Config} {d : Device} :
    (parse source config).result = .ok d ↔ ∃ regions root draft, config.regions = .ok regions ∧
      source.read = .ok root ∧ (Draft.buildDevice root).result = .ok draft ∧
      complete config regions draft = .ok d := by
  constructor
  · intro h
    have hrun := h
    obtain ⟨regions, hregions, h⟩ := Logged.bind_eq_ok_iff.1 h
    obtain ⟨root, hroot, -⟩ := Logged.bind_eq_ok_iff.1 h
    rw [parse_eq hregions hroot] at hrun
    obtain ⟨draft, hdraft, hd⟩ := bind_eq_ok_iff.1 hrun
    exact ⟨regions, root, draft, hregions, hroot, hdraft, hd⟩
  · rintro ⟨regions, root, draft, hregions, hroot, hdraft, hd⟩
    rw [parse_eq hregions hroot, hdraft]
    exact hd

end RegisterMap
