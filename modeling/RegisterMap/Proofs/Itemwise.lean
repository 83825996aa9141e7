import RegisterMap.Proofs.EqualScopes
import RegisterMap.Proofs.Instances
import RegisterMap.Proofs.Stages

/-!
# Stages that treat each item for itself

A stage that takes a list of items to another list is itemwise if it replaces each item by a block
of others that depends on the item alone, in whatever order the items stand (`Itemwise`). Stages
that follow each other are itemwise together.

If a stage of a run succeeds for a draft, it is itemwise on the peripherals of the draft: what it
looks up in the whole draft is found by names, which are distinct.
-/

namespace RegisterMap

section

variable {ε α β γ X Y Z : Type}

/-- The step succeeds on the items in any order, and replaces each of them by its block. The items
are part of `before` and their replacements part of `after`. -/
def Itemwise (step : X → Except ε Y) (before : List α → X) (after : List β → Y) (as : List α)
    (block : α → List β) : Prop :=
  ∀ as', as'.Perm as → step (before as') = .ok (after (as'.flatMap block))

/-- What a step gives for the items in their order determines their blocks. -/
theorem Itemwise.eq_after {step : X → Except ε Y} {before : List α → X} {after : List β → Y}
    {as : List α} {block : α → List β} (h : Itemwise step before after as block) {y : Y}
    (hy : step (before as) = .ok y) : y = after (as.flatMap block) :=
  Except.ok.inj (hy.symm.trans (h as (.refl as)))

theorem Itemwise.bind {step : X → Except ε Y} {step' : Y → Except ε Z} {before : List α → X}
    {between : List β → Y} {after : List γ → Z} {as : List α} {block : α → List β}
    {block' : β → List γ} (first : Itemwise step before between as block)
    (second : Itemwise step' between after (as.flatMap block) block') :
    Itemwise (fun x => step x >>= step') before after as fun a => (block a).flatMap block' := by
  intro as' hperm
  have hfirst := first as' hperm
  have hsecond := second (as'.flatMap block) (hperm.flatMap_right block)
  dsimp only
  rw [hfirst, ok_bind, hsecond, List.flatMap_assoc]

/-- A step that succeeds on the items in any order is itemwise if their replacements are determined
by a relation between items. -/
theorem exists_itemwise {step : X → Except ε Y} {before : List α → X} {after : List β → Y}
    {as : List α} {R : α → β → Prop} (unique : Relator.RightUnique R)
    (h : ∀ as', as'.Perm as → ∃ bs, List.Forall₂ R as' bs ∧ step (before as') = .ok (after bs)) :
    ∃ block, Itemwise step before after as block ∧ ∀ a ∈ as, ∀ b ∈ block a, R a b := by
  classical
  let block (a : α) : List β := if h : ∃ b, R a b then [h.choose] else []
  have hblock {as : List α} {bs : List β} (h : List.Forall₂ R as bs) : as.flatMap block = bs := by
    induction h with
    | nil => rfl
    | @cons a b as bs r _ ih =>
        have hexists : ∃ b, R a b := ⟨b, r⟩
        have hfirst : block a = [b] := by
          rw [← unique hexists.choose_spec r]
          exact dif_pos hexists
        rw [List.flatMap_cons, hfirst, ih, List.singleton_append]
  refine ⟨block, fun as' hperm => ?_, fun a _ b hb => ?_⟩
  · obtain ⟨bs, hbs, hstep⟩ := h as' hperm
    rw [hstep, hblock hbs]
  · by_cases hexists : ∃ b, R a b
    · have hfirst : block a = [hexists.choose] := dif_pos hexists
      rw [hfirst, List.mem_singleton] at hb
      rw [hb]
      exact hexists.choose_spec
    · have hnone : block a = [] := dif_neg hexists
      rw [hnone] at hb
      cases hb

end

namespace Draft.Device

/-- The device with other peripherals. -/
def withPeripherals (d : Device) (ps : List Peripheral) : Device :=
  { d with peripherals := ps }

variable {d : Device} {ps : List Peripheral}

/-! ### Derivation -/

theorem HasBases.mono {d' : Device} (sub : ∀ q ∈ d.peripherals, q ∈ d'.peripherals)
    {p : Peripheral} {bases : List Peripheral} (h : d.HasBases p bases) : d'.HasBases p bases := by
  induction h with
  | last own => exact .last own
  | step mem given _ ih => exact .step (sub _ mem) given ih

theorem Settled.perm (settled : d.Settled) (hperm : ps.Perm d.peripherals) :
    (d.withPeripherals ps).Settled where
  names := (hperm.map _).nodup_iff.2 settled.names
  defaults := fun p hp => settled.defaults p (hperm.mem_iff.1 hp)

theorem exists_itemwise_derivePeripherals (settled : d.Settled) {middle : Device} {n : Nat}
    (h : d.derivePeripherals = .ok (middle, n)) :
    ∃ block, Itemwise (fun d => Prod.fst <$> d.derivePeripherals) d.withPeripherals
        d.withPeripherals d.peripherals block ∧
      ∀ p ∈ d.peripherals, ∀ q ∈ block p, d.DerivesTo p q := by
  obtain ⟨exist, acyclic⟩ := (exists_derivePeripherals_iff settled).1 ⟨middle, n, h⟩
  refine exists_itemwise (fun _ _ _ hq hq' => hq.unique settled.names hq') fun ps hperm => ?_
  have exist' : (d.withPeripherals ps).BasesExist := by
    intro p hp name hgiven
    obtain ⟨q, hq, hname⟩ := exist p (hperm.mem_iff.1 hp) name hgiven
    exact ⟨q, hperm.mem_iff.2 hq, hname⟩
  have acyclic' : (d.withPeripherals ps).Acyclic := by
    intro name hcircle
    have hrefers : ∀ x y, (d.withPeripherals ps).Refers x y → d.Refers x y := by
      rintro x y ⟨p, hp, hname, hgiven⟩
      exact ⟨p, hperm.mem_iff.1 hp, hname, hgiven⟩
    exact acyclic name (Relation.TransGen.mono hrefers _ _ hcircle)
  have settled' := settled.perm hperm
  obtain ⟨middle', n', hresult⟩ := (exists_derivePeripherals_iff settled').2 ⟨exist', acyclic'⟩
  obtain ⟨ps', rfl, hall⟩ := derivePeripherals_eq_ok settled' hresult
  refine ⟨ps', hall.imp fun p p' => ?_, ?_⟩
  · rintro ⟨bases, hbases, rfl⟩
    exact ⟨bases, hbases.mono fun q hq => hperm.mem_iff.1 hq, rfl⟩
  · rw [hresult]
    rfl

/-- Paths are found by names, whatever the order of the peripherals. -/
theorem findsAlike_of_perm (names : (d.peripherals.map (·.name)).Nodup)
    (hperm : ps.Perm d.peripherals) : d.FindsAlike (d.withPeripherals ps) := by
  intro path t h
  unfold find? at h ⊢
  split
  · next hparts =>
    rw [hparts] at h
    cases h
  · next name rest hparts =>
    rw [hparts] at h
    obtain ⟨⟨p, i⟩, hp, ht⟩ := Option.bind_eq_some_iff.1 h
    have hname : p.name = name := by simpa using List.find?_some hp
    have hmem : p ∈ d.peripherals := List.fst_mem_of_mem_zipIdx (List.mem_of_find?_eq_some hp)
    obtain ⟨j, hj⟩ := List.mem_iff_getElem?.1 (hperm.mem_iff.2 hmem)
    have hfind := find?_zipIdx ((hperm.map _).nodup_iff.2 names) hj
    rw [hname] at hfind
    obtain ⟨t', ht', hmatches⟩ :=
      Scope.exists_matching_found (s := p.scope d.path i) (t := p.scope d.path j) rfl ht
    refine ⟨t', ?_, hmatches⟩
    change (ps.zipIdx.find? _).bind _ = _
    rw [hfind]
    exact ht'

theorem exists_itemwise_deriveRegisters (names : (d.peripherals.map (·.name)).Nodup)
    {d' : Device} {n : Nat} (h : d.deriveRegisters = .ok (d', n)) :
    ∃ block, Itemwise (fun d => Prod.fst <$> d.deriveRegisters) d.withPeripherals
        d.withPeripherals d.peripherals block ∧
      ∀ p ∈ d.peripherals, ∀ q ∈ block p, q.name = p.name := by
  obtain ⟨f, -, hf⟩ := deriveRegisters_eq_ok h
  let R (p q : Peripheral) : Prop := ∃ i : Nat, d.peripherals[i]? = some p ∧
    q = { p with members := p.members.map (Member.mapRegistersAll f [i] 0) }
  have unique : Relator.RightUnique R := by
    rintro p q q' ⟨i, hi, rfl⟩ ⟨j, hj, rfl⟩
    rw [index_eq_of_key_eq names hi hj rfl]
  have hstep : ∀ ps : List Peripheral, ps.Perm d.peripherals → ∃ qs, List.Forall₂ R ps qs ∧
      Prod.fst <$> (d.withPeripherals ps).deriveRegisters =
        Except.ok (ε := Error) (d.withPeripherals qs) := by
    intro ps hperm
    have finds := findsAlike_of_perm names hperm
    have hderived : ∀ s ∈ (d.withPeripherals ps).sites,
        ∃ r, (d.withPeripherals ps).deriveRegister s = .ok r := by
      intro s hs
      have hposition := mem_sites_iff.1 hs
      cases hcases : s.position with
      | nil =>
          rw [hcases] at hposition
          cases hposition
      | cons j is =>
          rw [hcases] at hposition
          obtain ⟨p, hp, hsite⟩ := site?_cons_eq_some_iff.1 hposition
          obtain ⟨i, hi⟩ := List.mem_iff_getElem?.1 (hperm.mem_iff.1 (List.mem_of_getElem? hp))
          obtain ⟨t, ht, hmatches⟩ :=
            Scope.exists_matching_site (s := p.scope d.path j) (t := p.scope d.path i) rfl hsite
          have hmem := mem_sites_of_site? (site?_cons_eq_some_iff.2 ⟨p, hi, ht⟩)
          exact ⟨_, deriveRegister_transfer finds hs hmatches.symm (hf t hmem)⟩
    obtain ⟨d'', n', hresult⟩ := exists_deriveRegisters hderived
    obtain ⟨f', rfl, hf'⟩ := deriveRegisters_eq_ok hresult
    refine ⟨((d.withPeripherals ps).mapRegisters f').peripherals,
      forall₂_of_getElem? List.length_mapIdx.symm fun j p hp => ?_, ?_⟩
    · obtain ⟨i, hi⟩ := List.mem_iff_getElem?.1 (hperm.mem_iff.1 (List.mem_of_getElem? hp))
      refine ⟨_, ?_, i, hi, rfl⟩
      rw [members_deriveRegisters finds hf hf' hi hp rfl]
      change (ps.mapIdx _)[j]? = _
      rw [List.getElem?_mapIdx, hp]
      rfl
    · rw [hresult]
      rfl
  obtain ⟨block, hblock, hR⟩ := exists_itemwise unique hstep
  refine ⟨block, hblock, fun p hp q hq => ?_⟩
  obtain ⟨i, -, rfl⟩ := hR p hp q hq
  rfl

theorem exists_itemwise_resolveDerivations (settled : d.Settled) {d' : Device}
    (h : d.resolveDerivations.result = .ok d') :
    ∃ block, Itemwise (fun d => d.resolveDerivations.result) d.withPeripherals d.withPeripherals
        d.peripherals block ∧
      ∀ p ∈ d.peripherals, ∀ q ∈ block p, q.name = p.name := by
  rw [result_resolveDerivations] at h
  obtain ⟨middle, hfirst, hsecond⟩ := bind_eq_ok_iff.1 h
  obtain ⟨⟨_, n⟩, hmiddle, rfl⟩ := map_eq_ok_iff.1 hfirst
  obtain ⟨⟨_, m⟩, hregisters, rfl⟩ := map_eq_ok_iff.1 hsecond
  obtain ⟨ps, rfl, hps⟩ := derivePeripherals_eq_ok settled hmiddle
  have names : (ps.map (·.name)).Nodup := by
    rw [← map_eq_map_of_forall₂ hps fun _ _ hp => hp.name.symm]
    exact settled.names
  obtain ⟨block, hblock, hderives⟩ := exists_itemwise_derivePeripherals settled hmiddle
  obtain ⟨block', hblock', hnames⟩ := exists_itemwise_deriveRegisters names hregisters
  have hflat : d.peripherals.flatMap block = ps := by
    have hsame := hblock d.peripherals (.refl _)
    change Prod.fst <$> d.derivePeripherals = _ at hsame
    rw [hmiddle] at hsame
    exact (congrArg peripherals (Except.ok.inj hsame)).symm
  refine ⟨fun p => (block p).flatMap block', ?_, ?_⟩
  · rw [funext result_resolveDerivations]
    refine hblock.bind ?_
    rw [hflat]
    exact hblock'
  · intro p hp q hq
    obtain ⟨q', hq', hq⟩ := List.mem_flatMap.1 hq
    have hmem : q' ∈ ps := hflat ▸ List.mem_flatMap_of_mem hp hq'
    rw [hnames q' hmem q hq, (hderives p hp q' hq').name]

/-! ### Expansion and exclusion -/

theorem itemwise_expand {d' : Device} (h : d.expand.result = .ok d') :
    Itemwise (fun d => d.expand.result) d.withPeripherals d.withPeripherals d.peripherals
      Peripheral.expansion := by
  obtain ⟨expandable, names, -⟩ := expand_eq_ok_iff.1 h
  intro ps hperm
  refine expand_eq_ok_iff.2 ⟨fun p hp => expandable p (hperm.mem_iff.1 hp), ?_, rfl⟩
  exact ((hperm.flatMap_right _).map _).nodup_iff.2 names

theorem itemwise_without (names : List String) (d : Device) :
    Itemwise (fun d => Except.ok (ε := Error) (d.without names)) d.withPeripherals
      d.withPeripherals d.peripherals fun p => [p].filter (!·.isNamedIn names) := by
  intro ps _
  rw [← List.filter_flatMap, List.flatMap_singleton']
  rfl

/-! ### Alternates and addresses -/

theorem exists_itemwise_resolveAlternates (names : (d.peripherals.map (·.name)).Nodup)
    (unlinked : ∀ p ∈ d.peripherals, p.toHeader.Unlinked) {d' : Device}
    (h : d.resolveAlternates.result = .ok d') :
    ∃ block, Itemwise (fun d => d.resolveAlternates.result) d.withPeripherals d.withPeripherals
        d.peripherals block ∧
      ∀ p ∈ d.peripherals, ∀ q ∈ block p, d.Links p q := by
  obtain ⟨exist, ps', hps', -⟩ := (resolveAlternates_eq_ok_iff names unlinked).1 h
  refine exists_itemwise (R := d.Links) (fun _ _ _ links links' => links.unique links') ?_
  intro ps hperm
  have hsame : (d.withPeripherals ps).AlternateOf = d.AlternateOf := by
    funext x y
    refine propext ⟨?_, ?_⟩
    · rintro ⟨p, hp, hname, hgiven⟩
      exact ⟨p, hperm.mem_iff.1 hp, hname, hgiven⟩
    · rintro ⟨p, hp, hname, hgiven⟩
      exact ⟨p, hperm.mem_iff.2 hp, hname, hgiven⟩
  have exist' : (d.withPeripherals ps).AlternatesExist := by
    intro p hp name hgiven
    obtain ⟨q, hq, hname⟩ := exist p (hperm.mem_iff.1 hp) name hgiven
    exact ⟨q, hperm.mem_iff.2 hq, hname⟩
  obtain ⟨qs, hqs, -⟩ := List.perm_comp_forall₂ hperm hps'
  refine ⟨qs, hqs, (resolveAlternates_eq_ok_iff ((hperm.map _).nodup_iff.2 names) fun p hp =>
    unlinked p (hperm.mem_iff.1 hp)).2 ⟨exist', qs, hqs.imp fun p q links => ?_, rfl⟩⟩
  refine ⟨links.inside, fun x => ?_⟩
  rw [hsame]
  exact links.mem x

theorem itemwise_resolveAddresses {tolerant : Bool} (names : (d.peripherals.map (·.name)).Nodup)
    (symmetric : SymmetricAlternates (d.peripherals.map (·.toHeader))) {d' : Device}
    (h : (d.resolveAddresses tolerant).result = .ok d') :
    Itemwise (fun d => (resolveAddresses tolerant d).result) d.withPeripherals d.withPeripherals
      d.peripherals fun p => [p.placeAll] := by
  obtain ⟨placeable, clear, -⟩ := (resolveAddresses_eq_ok_iff tolerant names symmetric d').1 h
  intro ps hperm
  have symmetric' : SymmetricAlternates (ps.map (·.toHeader)) := by
    intro a ha b hb
    exact symmetric a ((hperm.map _).mem_iff.1 ha) b ((hperm.map _).mem_iff.1 hb)
  refine (resolveAddresses_eq_ok_iff tolerant ((hperm.map _).nodup_iff.2 names) symmetric' _).2
    ⟨?_, ?_, ?_⟩
  · exact fun p hp => placeable p (hperm.mem_iff.1 hp)
  · exact fun strict p hp q hq =>
      clear strict p (hperm.mem_iff.1 hp) q (hperm.mem_iff.1 hq)
  · rw [placeAll, List.map_eq_flatMap]
    rfl

end Draft.Device

/-! ### Publication -/

theorem exists_itemwise_publish {regions : List BitBand.ConfiguredRegion} {draft : Draft.Device}
    {d : Device} (h : Device.publish regions draft = .ok d) :
    ∃ block, Itemwise (Device.publish regions) draft.withPeripherals (Device.assemble draft)
        draft.peripherals block ∧
      ∀ dp ∈ draft.peripherals, ∀ p ∈ block dp, p.name = dp.name := by
  obtain ⟨ps, hps, names, -⟩ := Device.publish_eq_ok_iff.1 h
  let R (dp : Draft.Peripheral) (p : Peripheral) : Prop :=
    Peripheral.publish regions (draft.path.child dp.name) dp = .ok p
  have unique : Relator.RightUnique R := fun dp p q hp hq =>
    Except.ok.inj (hp.symm.trans hq)
  have hstep : ∀ dps : List Draft.Peripheral, dps.Perm draft.peripherals → ∃ qs,
      List.Forall₂ R dps qs ∧
        Device.publish regions (draft.withPeripherals dps) = .ok (Device.assemble draft qs) := by
    intro dps hperm
    obtain ⟨qs, hqs, -⟩ := List.perm_comp_forall₂ hperm hps
    exact ⟨qs, hqs, Device.publish_eq_ok_iff.2 ⟨qs, hqs, (hperm.map _).nodup_iff.2 names, rfl⟩⟩
  obtain ⟨block, hblock, hR⟩ := exists_itemwise unique hstep
  exact ⟨block, hblock, fun dp hdp p hp => Peripheral.name_publish (hR dp hdp p hp)⟩

/-! ### All stages -/

/-- The stages from the linking of alternates on are itemwise together. -/
theorem exists_itemwise_finish {tolerant : Bool} {regions : List BitBand.ConfiguredRegion}
    {draft : Draft.Device} {d : Device} (names : (draft.peripherals.map (·.name)).Nodup)
    (unlinked : ∀ dp ∈ draft.peripherals, dp.Unlinked) (h : finish tolerant regions draft = .ok d) :
    ∃ block, Itemwise (finish tolerant regions) draft.withPeripherals (Device.assemble draft)
        draft.peripherals block ∧
      ∀ dp ∈ draft.peripherals, ∀ p ∈ block dp, p.name = dp.name := by
  obtain ⟨linked, hlinked, hrest⟩ := bind_eq_ok_iff.1 h
  obtain ⟨placed, hplaced, hpublished⟩ := bind_eq_ok_iff.1 hrest
  obtain ⟨-, dps, hdps, rfl⟩ :=
    (Draft.Device.resolveAlternates_eq_ok_iff names unlinked).1 hlinked
  have namesLinked : (dps.map (·.name)).Nodup := by
    rw [← map_eq_map_of_forall₂ hdps fun _ _ links => links.name.symm]
    exact names
  obtain ⟨link, hlink, links⟩ :=
    Draft.Device.exists_itemwise_resolveAlternates names unlinked hlinked
  obtain rfl : dps = draft.peripherals.flatMap link :=
    congrArg Draft.Device.peripherals (hlink.eq_after hlinked)
  have hplace : Itemwise (fun d => (Draft.Device.resolveAddresses tolerant d).result)
      draft.withPeripherals draft.withPeripherals (draft.peripherals.flatMap link)
      fun dp => [dp.placeAll] :=
    Draft.Device.itemwise_resolveAddresses namesLinked
      (Draft.Device.symmetricAlternates_of_links hdps) hplaced
  obtain rfl := hplace.eq_after hplaced
  obtain ⟨publish, hpublish, namesPublish⟩ := exists_itemwise_publish hpublished
  let block (dp : Draft.Peripheral) : List Peripheral :=
    (link dp).flatMap fun dp => [dp.placeAll].flatMap publish
  refine ⟨block, hlink.bind (hplace.bind hpublish), fun dp hdp p hp => ?_⟩
  obtain ⟨dp₁, h₁, hp⟩ := List.mem_flatMap.1 hp
  have hmem := List.mem_flatMap_of_mem hdp h₁
  obtain ⟨dp₂, h₂, hp⟩ := List.mem_flatMap.1 hp
  rw [namesPublish dp₂ (List.mem_flatMap_of_mem hmem h₂) p hp, List.mem_singleton.1 h₂]
  exact (links dp hdp dp₁ h₁).name

/-- The peripheral has the name, or that of an instance of an array of the name. -/
def Peripheral.StandsFor (p : Peripheral) (name : String) : Prop :=
  p.name = name ∨ ∃ token, p.name = instanceName name token

theorem Draft.Peripheral.name_of_mem_expansion {p q : Draft.Peripheral} (h : q ∈ p.expansion) :
    q.name = p.name ∨ ∃ token, q.name = instanceName p.name token := by
  obtain ⟨r, hr, rfl⟩ := List.mem_map.1 h
  obtain ⟨i, -, rfl⟩ := List.mem_map.1 hr
  cases i with
  | none => exact .inl rfl
  | some i => exact .inr ⟨i.token, rfl⟩

/-- If the stages succeed for a built draft, they are itemwise on its peripherals together. -/
theorem exists_itemwise_complete {config : Config} {regions : List BitBand.ConfiguredRegion}
    {draft : Draft.Device} {d : Device} (settled : draft.Settled)
    (unlinked : draft.Every Draft.Header.Unlinked) (h : complete config regions draft = .ok d) :
    ∃ block, Itemwise (complete config regions) draft.withPeripherals (Device.assemble draft)
        draft.peripherals block ∧
      ∀ dp ∈ draft.peripherals, ∀ p ∈ block dp, p.StandsFor dp.name := by
  obtain ⟨derived, expanded, hderived, hexpanded, names, unlinkedExpanded, hrest⟩ :=
    exists_expanded_of_complete unlinked h
  have namesKept := Draft.Device.nodup_names_without names config.excluded
  have unlinkedKept : ∀ p ∈ (expanded.without config.excluded).peripherals, p.Unlinked :=
    fun p hp => unlinkedExpanded p (List.mem_of_mem_filter hp)
  -- What a stage gives is the draft on which the next one works.
  obtain ⟨derive, hderive, namesDerive⟩ :=
    Draft.Device.exists_itemwise_resolveDerivations settled hderived
  obtain rfl := hderive.eq_after hderived
  have hexpand : Itemwise (fun d => d.expand.result) draft.withPeripherals draft.withPeripherals
      (draft.peripherals.flatMap derive) Draft.Peripheral.expansion :=
    Draft.Device.itemwise_expand hexpanded
  obtain rfl := hexpand.eq_after hexpanded
  let keep (p : Draft.Peripheral) := [p].filter (!·.isNamedIn config.excluded)
  have hkeep : Itemwise (fun d => Except.ok (ε := Error) (d.without config.excluded))
      draft.withPeripherals draft.withPeripherals
      ((draft.peripherals.flatMap derive).flatMap Draft.Peripheral.expansion) keep :=
    Draft.Device.itemwise_without config.excluded (draft.withPeripherals _)
  rw [hkeep.eq_after rfl] at namesKept unlinkedKept hrest
  obtain ⟨finish, hfinish, namesFinish⟩ := exists_itemwise_finish namesKept unlinkedKept hrest
  let block (dp : Draft.Peripheral) : List Peripheral :=
    (derive dp).flatMap fun dp => dp.expansion.flatMap fun dp => (keep dp).flatMap finish
  refine ⟨block, hderive.bind (hexpand.bind (hkeep.bind hfinish)), fun dp hdp p hp => ?_⟩
  obtain ⟨dp₁, h₁, hp⟩ := List.mem_flatMap.1 hp
  obtain ⟨dp₂, h₂, hp⟩ := List.mem_flatMap.1 hp
  obtain ⟨dp₃, h₃, hp⟩ := List.mem_flatMap.1 hp
  have hmem := List.mem_flatMap_of_mem (List.mem_flatMap_of_mem hdp h₁) h₂
  have hsame : dp₃ = dp₂ := List.mem_singleton.1 (List.mem_of_mem_filter h₃)
  rw [Peripheral.StandsFor, namesFinish dp₃ (List.mem_flatMap_of_mem hmem h₃) p hp, hsame,
    ← namesDerive dp hdp dp₁ h₁]
  exact Draft.Peripheral.name_of_mem_expansion h₂

end RegisterMap
