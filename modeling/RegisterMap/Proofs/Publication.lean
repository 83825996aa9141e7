import RegisterMap.BitBand.Alias
import RegisterMap.Device.OfDraft
import RegisterMap.Proofs.Placement

/-!
# From placed drafts to devices

A device shows the names, alternates, offsets and address ranges of the draft from which it is made,
at the same positions; bit-band aliases change none of them. `Draft.Member.ShownAs` collects what a
member and its draft have in common, and `Device.Shows` lifts it to all positions of a device.

The ranges of a peripheral are the exception: the span of its members ignores those without
addresses, so in the device it may be smaller than in the draft, but never larger.
-/

namespace RegisterMap

/-- The draft of a member is resolved and agrees with the member in what siblings see of it. -/
structure Draft.Member.ShownAs (dm : Draft.Member) (m : RegisterMap.Member) : Prop where
  name : m.name = dm.name
  alternates : m.alternates = dm.header.alternates
  offset : dm.offset = some m.offset
  range : m.range = dm.range

namespace Member

theorem resolved_eq_ok_iff {α : Type} {x : Option α} {a : α} :
    resolved x = .ok a ↔ x = some a := by
  cases x with
  | none => simp [resolved]
  | some b => simp [resolved]

theorem ofDraftAll_eq_ok_iff {path : NodePath} {dms : List Draft.Member} {ms : List Member} :
    ofDraftAll path dms = .ok ms ↔
      List.Forall₂ (fun dm m => ofDraft (path.child dm.name) dm = .ok m) dms ms := by
  induction dms generalizing ms with
  | nil => simp [ofDraftAll, eq_comm]
  | cons dm dms ih =>
      rw [ofDraftAll, cons_eq_ok_iff, List.forall₂_cons_left_iff]
      simp only [ih]

theorem size_eq_ok {path : NodePath} {r : Draft.Register} {size : Int}
    (h : r.size path = .ok size) : r.effective.size = some size := by
  unfold Draft.Register.size at h
  split at h
  · cases h
  · next given hgiven =>
    split at h
    · cases h
    · cases h
      exact hgiven

theorem shownAs_of_ofDraft {path : NodePath} {dm : Draft.Member} {m : Member}
    (h : ofDraft path dm = .ok m) : dm.ShownAs m := by
  cases dm with
  | register r =>
      obtain ⟨r', hr, h⟩ := bind_eq_ok_iff.1 h
      cases h
      obtain ⟨offset, hoffset, hr⟩ := bind_eq_ok_iff.1 hr
      obtain ⟨size, hsize, hr⟩ := bind_eq_ok_iff.1 hr
      obtain ⟨resetValue, -, hr⟩ := bind_eq_ok_iff.1 hr
      obtain ⟨address, haddress, hr⟩ := bind_eq_ok_iff.1 hr
      obtain ⟨fields, -, hr⟩ := bind_eq_ok_iff.1 hr
      cases hr
      rw [resolved_eq_ok_iff] at hoffset haddress
      refine ⟨rfl, rfl, hoffset, ?_⟩
      simp [Member.range, Register.range, Register.byteSize, Draft.Member.range,
        Draft.Member.start, Draft.Member.stop, Draft.Member.header, Draft.byteCount, haddress,
        size_eq_ok hsize]
  | cluster c dms =>
      obtain ⟨c', hc, h⟩ := bind_eq_ok_iff.1 h
      obtain ⟨ms, -, h⟩ := bind_eq_ok_iff.1 h
      obtain ⟨_, -, h⟩ := bind_eq_ok_iff.1 h
      cases h
      obtain ⟨offset, hoffset, hc⟩ := bind_eq_ok_iff.1 hc
      obtain ⟨address, haddress, hc⟩ := bind_eq_ok_iff.1 hc
      cases hc
      rw [resolved_eq_ok_iff] at hoffset haddress
      refine ⟨rfl, rfl, hoffset, ?_⟩
      simp [Member.range, Cluster.range, Draft.Member.range, Draft.Member.start,
        Draft.Member.stop, Draft.Member.header, haddress]

theorem nodup_of_checkNames {ms : List Member} (h : checkNames ms = .ok ()) :
    (ms.map name).Nodup := by
  unfold checkNames at h
  split at h
  · cases h
  · next hnone => exact (NameMap.firstRepeated?_eq_none_iff.1 hnone).1

/-- Every group of siblings in a device is made from the group at the same position in the draft,
and its names are distinct. -/
theorem exists_group_of_ofDraft {path : NodePath} {dms : List Draft.Member} {ms : List Member}
    (h : ofDraftAll path dms = .ok ms) (names : (ms.map name).Nodup) {is : List Nat}
    {ns : List Member} (hns : groupAt? ms is = some ns) :
    (ns.map name).Nodup ∧ ∃ path' dns, Draft.Member.groupAt? dms is = some dns ∧
      ofDraftAll path' dns = .ok ns := by
  induction is generalizing path dms ms with
  | nil =>
      cases hns
      exact ⟨names, path, dms, rfl, h⟩
  | cons i is ih =>
      obtain ⟨m, hm, hns⟩ := groupAt?_cons_eq_some_iff.1 hns
      obtain ⟨dm, hdm, hmade⟩ := exists_getElem?_left (ofDraftAll_eq_ok_iff.1 h) hm
      have hinside : (m.members.map name).Nodup ∧
          ofDraftAll (path.child dm.name) dm.members = .ok m.members := by
        cases dm with
        | register r =>
            obtain ⟨r', -, hmade⟩ := bind_eq_ok_iff.1 hmade
            cases hmade
            exact ⟨List.nodup_nil, rfl⟩
        | cluster c dms =>
            obtain ⟨c', -, hmade⟩ := bind_eq_ok_iff.1 hmade
            obtain ⟨ms, hms, hmade⟩ := bind_eq_ok_iff.1 hmade
            obtain ⟨_, hnames, hmade⟩ := bind_eq_ok_iff.1 hmade
            cases hmade
            exact ⟨nodup_of_checkNames hnames, hms⟩
      obtain ⟨hnames, path', dns, hdns, hall⟩ := ih hinside.2 hinside.1 hns
      exact ⟨hnames, path', dns, Draft.Member.groupAt?_cons_eq_some_iff.2 ⟨dm, hdm, hdns⟩, hall⟩

/-! ### Aliases -/

theorem withAliasesAll_eq_ok_iff {regions : List BitBand.ConfiguredRegion} {ms ms' : List Member} :
    withAliasesAll regions ms = .ok ms' ↔
      List.Forall₂ (fun m m' => m.withAliases regions = .ok m') ms ms' := by
  induction ms generalizing ms' with
  | nil => simp [withAliasesAll, eq_comm]
  | cons m ms ih =>
      rw [withAliasesAll, cons_eq_ok_iff, List.forall₂_cons_left_iff]
      simp only [ih]

/-- Aliases change a register only in its aliases and those of its fields. -/
theorem withAliases_register {regions : List BitBand.ConfiguredRegion} {r r' : Register}
    (h : r.withAliases regions = .ok r') :
    r' = { r with bitBand := r'.bitBand, fields := r'.fields } := by
  unfold Register.withAliases at h
  split at h
  · cases h
    rfl
  · obtain ⟨fields, -, h⟩ := bind_eq_ok_iff.1 h
    cases h
    rfl

theorem surface_withAliases {regions : List BitBand.ConfiguredRegion} {m m' : Member}
    (h : m.withAliases regions = .ok m') : m'.name = m.name ∧ m'.alternates = m.alternates ∧
      m'.offset = m.offset ∧ m'.range = m.range := by
  cases m with
  | register r =>
      obtain ⟨r', hr, h⟩ := bind_eq_ok_iff.1 h
      cases h
      rw [withAliases_register hr]
      exact ⟨rfl, rfl, rfl, rfl⟩
  | cluster c ms =>
      obtain ⟨ms', -, h⟩ := bind_eq_ok_iff.1 h
      cases h
      exact ⟨rfl, rfl, rfl, rfl⟩

theorem names_withAliasesAll {regions : List BitBand.ConfiguredRegion} {ms ms' : List Member}
    (h : withAliasesAll regions ms = .ok ms') : ms'.map name = ms.map name :=
  (map_eq_map_of_forall₂ (withAliasesAll_eq_ok_iff.1 h)
    fun _ _ hm => (surface_withAliases hm).1.symm).symm

theorem shownAs_withAliases {regions : List BitBand.ConfiguredRegion} {dm : Draft.Member}
    {m m' : Member} (shown : dm.ShownAs m) (h : m.withAliases regions = .ok m') :
    dm.ShownAs m' := by
  obtain ⟨hname, halternates, hoffset, hrange⟩ := surface_withAliases h
  constructor
  · rw [hname, shown.name]
  · rw [halternates, shown.alternates]
  · rw [hoffset, shown.offset]
  · rw [hrange, shown.range]

theorem exists_group_of_withAliases {regions : List BitBand.ConfiguredRegion}
    {ms ms' : List Member} (h : withAliasesAll regions ms = .ok ms') {is : List Nat}
    {ns' : List Member} (hns : groupAt? ms' is = some ns') :
    ∃ ns, groupAt? ms is = some ns ∧ withAliasesAll regions ns = .ok ns' := by
  induction is generalizing ms ms' with
  | nil =>
      cases hns
      exact ⟨ms, rfl, h⟩
  | cons i is ih =>
      obtain ⟨m', hm', hns⟩ := groupAt?_cons_eq_some_iff.1 hns
      obtain ⟨m, hm, hstep⟩ := exists_getElem?_left (withAliasesAll_eq_ok_iff.1 h) hm'
      have hinside : withAliasesAll regions m.members = .ok m'.members := by
        cases m with
        | register r =>
            obtain ⟨r', -, hstep⟩ := bind_eq_ok_iff.1 hstep
            cases hstep
            rfl
        | cluster c ms =>
            obtain ⟨ms', hms', hstep⟩ := bind_eq_ok_iff.1 hstep
            cases hstep
            exact hms'
      obtain ⟨ns, hns, hall⟩ := ih hinside hns
      exact ⟨ns, groupAt?_cons_eq_some_iff.2 ⟨m, hm, hns⟩, hall⟩

end Member

/-! ### Peripherals -/

/-- The draft of a peripheral agrees with the peripheral in what other peripherals see of it. -/
structure Draft.Peripheral.ShownAs (dp : Draft.Peripheral) (p : RegisterMap.Peripheral) :
    Prop where
  name : p.name = dp.name
  alternates : p.alternates = dp.alternates
  ranges : ∀ r ∈ p.ranges, ∃ r' ∈ dp.ranges, r.Within r'
  members : ∀ is ns, RegisterMap.Member.groupAt? p.members is = some ns →
    (ns.map RegisterMap.Member.name).Nodup ∧
      ∃ dns, Draft.Member.groupAt? dp.memberList is = some dns ∧
        List.Forall₂ Draft.Member.ShownAs dns ns

/-- A member of the peripheral has a draft at its position, and so has everything directly inside of
it. -/
theorem Draft.Peripheral.ShownAs.exists_member {dp : Draft.Peripheral}
    {p : RegisterMap.Peripheral} (shown : dp.ShownAs p) {is : List Nat}
    {ns : List RegisterMap.Member} (hns : RegisterMap.Member.groupAt? p.members is = some ns)
    {i : Nat} {m : RegisterMap.Member} (hm : ns[i]? = some m) :
    ∃ dns dm, Draft.Member.groupAt? dp.memberList is = some dns ∧ dns[i]? = some dm ∧
      dm.ShownAs m ∧ List.Forall₂ Draft.Member.ShownAs dm.members m.members := by
  obtain ⟨-, dns, hdns, hall⟩ := shown.members is ns hns
  obtain ⟨dm, hdm, hmshown⟩ := exists_getElem?_left hall hm
  obtain ⟨-, dms, hdms, hinside⟩ :=
    shown.members _ _ (RegisterMap.Member.groupAt?_append_singleton hns hm)
  rw [Draft.Member.groupAt?_append_singleton hdns hdm] at hdms
  cases hdms
  exact ⟨dns, dm, hdns, hdm, hmshown, hinside⟩

theorem mem_map_of_mem_map_filter {α β γ : Type} {f : α → β} {g : β → γ} {p : β → Bool}
    {as : List α} {c : γ} (h : c ∈ ((as.map f).filter p).map g) : c ∈ as.map fun a => g (f a) := by
  obtain ⟨b, hb, rfl⟩ := List.mem_map.1 h
  obtain ⟨a, ha, rfl⟩ := List.mem_map.1 (List.mem_of_mem_filter hb)
  exact List.mem_map_of_mem ha

/-- The range from the least start to the greatest end of some ranges lies within that of any
starts and ends that include theirs. -/
theorem exists_span_within {starts starts' stops stops' : List Int} {start stop : Int}
    (hstart : starts.min? = some start) (hstop : stops.max? = some stop)
    (hstarts : ∀ a ∈ starts, a ∈ starts') (hstops : ∀ a ∈ stops, a ∈ stops') :
    ∃ start' stop', starts'.min? = some start' ∧ stops'.max? = some stop' ∧
      AddressRange.Within ⟨start, stop⟩ ⟨start', stop'⟩ := by
  have hstart := hstarts start (List.min?_mem hstart)
  have hstop := hstops stop (List.max?_mem hstop)
  cases hstart' : starts'.min? with
  | none =>
      rw [List.min?_eq_none_iff.1 hstart'] at hstart
      cases hstart
  | some start' =>
      cases hstop' : stops'.max? with
      | none =>
          rw [List.max?_eq_none_iff.1 hstop'] at hstop
          cases hstop
      | some stop' =>
          refine ⟨start', stop', rfl, rfl, ?_, ?_⟩
          · exact (List.min?_eq_some_iff.1 hstart').2 start hstart
          · exact (List.max?_eq_some_iff.1 hstop').2 stop hstop

/-- The ranges of a peripheral lie within those of its draft. -/
theorem exists_range_within {dp : Draft.Peripheral} {p : Peripheral} {address : Int}
    (haddress : dp.address = some address) (hp : p.address = address)
    (hblocks : p.addressBlocks = dp.addressBlocks.getD [])
    (hmembers : p.members.map Member.range = dp.memberList.map Draft.Member.range)
    {r : AddressRange} (hr : r ∈ p.ranges) : ∃ r' ∈ dp.ranges, r.Within r' := by
  unfold Peripheral.ranges at hr
  unfold Draft.Peripheral.ranges
  rw [hblocks, hmembers, hp] at hr
  rw [haddress, Option.getD_some]
  split at hr
  · next hempty =>
    rw [List.isEmpty_iff] at hempty
    dsimp only at hr
    split at hr
    · next start stop hstart hstop =>
      rw [List.mem_singleton.1 hr]
      let spans := (dp.memberList.map Draft.Member.range).filter (!·.isEmpty)
      have hstarts : ∀ a ∈ spans.map (·.start), a ∈ dp.memberList.map Draft.Member.start :=
        fun a ha => mem_map_of_mem_map_filter (f := Draft.Member.range) ha
      have hstops : ∀ a ∈ spans.map (·.stop), a ∈ dp.memberList.map Draft.Member.stop :=
        fun a ha => mem_map_of_mem_map_filter (f := Draft.Member.range) ha
      obtain ⟨start', stop', hstart', hstop', hwithin⟩ :=
        exists_span_within hstart hstop hstarts hstops
      rw [hempty, hstart', hstop']
      exact ⟨_, List.mem_singleton_self _, hwithin⟩
    · cases hr
  · next hsome =>
    refine ⟨r, ?_, .refl r⟩
    split
    · next hnil _ _ => exact absurd (List.isEmpty_iff.2 hnil) hsome
    · exact hr

theorem Peripheral.shownAs_ofDraft {path : NodePath} {dp : Draft.Peripheral} {p : Peripheral}
    (h : Peripheral.ofDraft path dp = .ok p) : dp.ShownAs p := by
  obtain ⟨address, haddress, h⟩ := bind_eq_ok_iff.1 h
  obtain ⟨members, hmembers, h⟩ := bind_eq_ok_iff.1 h
  obtain ⟨_, hnames, h⟩ := bind_eq_ok_iff.1 h
  cases h
  have hshown : List.Forall₂ Draft.Member.ShownAs dp.memberList members :=
    (Member.ofDraftAll_eq_ok_iff.1 hmembers).imp fun _ _ => Member.shownAs_of_ofDraft
  refine ⟨rfl, rfl, fun r hr => ?_, fun is ns hns => ?_⟩
  · refine exists_range_within (Member.resolved_eq_ok_iff.1 haddress) rfl rfl ?_ hr
    exact (map_eq_map_of_forall₂ hshown fun _ _ hm => hm.range.symm).symm
  · obtain ⟨hnodup, path', dns, hdns, hall⟩ :=
      Member.exists_group_of_ofDraft hmembers (Member.nodup_of_checkNames hnames) hns
    refine ⟨hnodup, dns, hdns, ?_⟩
    exact (Member.ofDraftAll_eq_ok_iff.1 hall).imp fun _ _ => Member.shownAs_of_ofDraft

theorem Peripheral.shownAs_withAliases {regions : List BitBand.ConfiguredRegion}
    {dp : Draft.Peripheral} {p p' : Peripheral} (shown : dp.ShownAs p)
    (h : p.withAliases regions = .ok p') : dp.ShownAs p' := by
  obtain ⟨members, hmembers, h⟩ := bind_eq_ok_iff.1 h
  cases h
  have hsteps := Member.withAliasesAll_eq_ok_iff.1 hmembers
  refine ⟨shown.name, shown.alternates, ?_, fun is ns' hns' => ?_⟩
  · have hspans : p.members.map Member.range = members.map Member.range :=
      map_eq_map_of_forall₂ hsteps fun _ _ hm => (Member.surface_withAliases hm).2.2.2.symm
    have hranges : Peripheral.ranges { p with members } = p.ranges := by
      simp only [Peripheral.ranges, ← hspans]
    rw [hranges]
    exact shown.ranges
  · obtain ⟨ns, hns, hall⟩ := Member.exists_group_of_withAliases hmembers hns'
    obtain ⟨hnodup, dns, hdns, hshown⟩ := shown.members is ns hns
    have hsteps := Member.withAliasesAll_eq_ok_iff.1 hall
    refine ⟨Member.names_withAliasesAll hall ▸ hnodup, dns, hdns, ?_⟩
    exact forall₂_trans hshown hsteps fun _ _ _ => Member.shownAs_withAliases

/-! ### Devices -/

theorem makeNamed_eq_ok_iff {α β : Type} {name : α → String} {make : α → Except Error β}
    {taken : List String} {as : List α} {bs : List β} :
    makeNamed name make taken as = .ok bs ↔
      List.Forall₂ (fun a b => make a = .ok b) as bs ∧ (as.map name).Nodup ∧
        ∀ a ∈ as, name a ∉ taken := by
  induction as generalizing taken bs with
  | nil => simp [makeNamed, eq_comm]
  | cons a as ih =>
      rw [List.forall₂_cons_left_iff, List.map_cons, List.nodup_cons, List.forall_mem_cons]
      constructor
      · intro h
        obtain ⟨b, hb, h⟩ := bind_eq_ok_iff.1 h
        split at h
        · cases h
        · next hnew =>
          obtain ⟨bs', hbs', h⟩ := bind_eq_ok_iff.1 h
          cases h
          obtain ⟨hall, hnodup, hrest⟩ := ih.1 hbs'
          simp only [List.mem_cons, not_or] at hrest
          refine ⟨⟨b, bs', hb, hall, rfl⟩, ⟨?_, hnodup⟩, by simpa using hnew, ?_⟩
          · intro hmem
            obtain ⟨a', ha', heq⟩ := List.mem_map.1 hmem
            exact (hrest a' ha').1 heq
          · exact fun a' ha' => (hrest a' ha').2
      · rintro ⟨⟨b, bs', hb, hall, rfl⟩, ⟨hname, hnodup⟩, hnew, hrest⟩
        have hothers : ∀ a' ∈ as, name a' ∉ name a :: taken := by
          intro a' ha' hmem
          rcases List.mem_cons.1 hmem with heq | hmem
          · exact hname (heq ▸ List.mem_map_of_mem ha')
          · exact hrest a' ha' hmem
        rw [makeNamed, bind_eq_ok_iff]
        refine ⟨b, hb, ?_⟩
        rw [if_neg (by simpa using hnew)]
        exact bind_eq_ok_iff.2 ⟨bs', ih.2 ⟨hall, hnodup, hothers⟩, rfl⟩

/-- The device is made from a placed draft, apart from bit-band aliases. -/
structure Device.Shows (d : Device) (draft : Draft.Device) : Prop where
  peripherals : List.Forall₂ Draft.Peripheral.ShownAs draft.peripherals d.peripherals
  names : (draft.peripherals.map (·.name)).Nodup

theorem Device.shows_ofDraft (draft : Draft.Device) :
    (Device.ofDraft draft).Yields fun d => d.Shows draft := by
  refine .bind (.of_ofExcept fun _ h => h) fun peripherals hperipherals => ?_
  refine .bind_of_forall fun _ => .of_pure ?_
  obtain ⟨hmade, hnames, -⟩ := makeNamed_eq_ok_iff.1 hperipherals
  exact ⟨hmade.imp fun _ _ => Peripheral.shownAs_ofDraft, hnames⟩

theorem Device.shows_withAliases {d : Device} {draft : Draft.Device} (shown : d.Shows draft)
    (regions : List BitBand.ConfiguredRegion) :
    (d.withAliases regions).Yields fun d' => d'.Shows draft := by
  refine .bind (.of_ofExcept fun _ h => mapM_eq_ok_iff.1 h) fun peripherals hsteps => ?_
  refine .bind_of_forall fun _ => .bind_of_forall fun _ => .of_pure ⟨?_, shown.names⟩
  exact forall₂_trans shown.peripherals hsteps fun _ _ _ => Peripheral.shownAs_withAliases

end RegisterMap
