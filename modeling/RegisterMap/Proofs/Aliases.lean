import RegisterMap.Proofs.Addresses

/-!
# Registers with their aliases

`Register.aliased` says what becomes of a register when aliases are added: which region decides on
them, and which word stands for which bit. If all fields of a device lie in their registers, every
register of the device becomes what it says, everything else stays as it is, and the regions that
are reported as unused are those that come first for no register
(`Device.withAliases_of_fields_inside`).
-/

namespace RegisterMap

/-! ### Registers replaced one by one -/

mutual

/-- The member with each register in it replaced. -/
def Member.mapRegisters (f : Register → Register) : Member → Member
  | .register r => .register (f r)
  | .cluster c ms => .cluster c (Member.mapRegistersAll f ms)

/-- The members with each register in them replaced. -/
def Member.mapRegistersAll (f : Register → Register) : List Member → List Member
  | [] => []
  | m :: ms => Member.mapRegisters f m :: Member.mapRegistersAll f ms

end

/-- The peripheral with each register in it replaced. -/
def Peripheral.mapRegisters (f : Register → Register) (p : Peripheral) : Peripheral :=
  { p with members := Member.mapRegistersAll f p.members }

/-- The device with each register in it replaced. -/
def Device.mapRegisters (f : Register → Register) (d : Device) : Device :=
  { d with peripherals := d.peripherals.map (Peripheral.mapRegisters f) }

theorem Device.registers_eq (d : Device) :
    d.registers = d.peripherals.flatMap fun p => Member.registersAll p.members :=
  List.flatMap_congr fun p _ => registersOf_eq_registersAll p.members

/-! ### The words of a register -/

namespace BitBand

/-- The word that stands for a bit of the register at an address. -/
def Region.wordOf (g : Region) (address : Int) (bit : Nat) : Int :=
  g.aliasBase + (address - g.addressableBase) * 32 + 4 * bit

/-- The first of several regions that include an address. -/
def firstRegion? (regions : List ConfiguredRegion) (address : Int) : Option ConfiguredRegion :=
  regions.find? fun g =>
    g.addressableBase ≤ address ∧ address < g.addressableBase + g.addressableSize

theorem regionAt?_eq (regions : List ConfiguredRegion) (address : Int) :
    regionAt? regions address = firstRegion? regions address :=
  rfl

theorem aliases_eq (region : Region) (address size : Int) :
    aliases region address size = (List.range size.toNat).map (region.wordOf address) := by
  refine List.map_congr_left fun bit _ => ?_
  simp only [Region.aliasAddress, Region.wordOf, aliasBytesPerByte, aliasBytesPerBit]
  omega

end BitBand

open BitBand

/-- The field of a register at an address, with the words for its own bits. -/
def Field.aliased (region : Region) (address : Int) (f : Field) : Field :=
  { f with
    bitBand := some ((List.range' f.bitRange.offset.toNat f.bitRange.width.toNat).map
      (region.wordOf address)) }

/-- The register with the words for its bits in the first region that includes its address. -/
def Register.aliased (regions : List ConfiguredRegion) (r : Register) : Register :=
  match firstRegion? regions r.address with
  | none => r
  | some g =>
    { r with
      bitBand := some ((List.range r.size.toNat).map (g.wordOf r.address))
      fields := r.fields.map (·.aliased g.toRegion r.address) }

/-- The field has only bits of a register with the given size. -/
structure Field.Inside (size : Int) (f : Field) : Prop where
  lower : 0 ≤ f.bitRange.offset
  upper : f.bitRange.offset + f.bitRange.width ≤ size

instance (size : Int) (f : Field) : Decidable (f.Inside size) :=
  decidable_of_iff (0 ≤ f.bitRange.offset ∧ f.bitRange.offset + f.bitRange.width ≤ size)
    ⟨fun h => ⟨h.1, h.2⟩, fun h => ⟨h.lower, h.upper⟩⟩

/-! ### Adding aliases -/

theorem Position.item?_natCast {α : Type} (items : List α) (n : Nat) :
    item? items (n : Int) = items[n]? := by
  unfold item?
  by_cases h : n < items.length
  · rw [index?_natCast h]
    rfl
  · have hnone : index? items.length (n : Int) = none := if_neg fun hn => by
      rw [if_neg (Int.not_lt.2 (Int.natCast_nonneg n))] at hn
      omega
    rw [hnone, List.getElem?_eq_none (Nat.le_of_not_lt h)]
    rfl

theorem mapM_eq_some_of_forall {α β : Type} {f : α → Option β} {g : α → β} {as : List α}
    (h : ∀ a ∈ as, f a = some (g a)) : as.mapM f = some (as.map g) := by
  induction as with
  | nil => rfl
  | cons a as ih =>
      rw [List.forall_mem_cons] at h
      rw [List.mapM_cons, h.1, ih h.2]
      rfl

theorem Field.withAliases_eq {region : Region} {address size : Int} {f : Field}
    (inside : f.Inside size) :
    f.withAliases (aliases region address size) = .ok (f.aliased region address) := by
  obtain ⟨lower, upper⟩ := inside
  have hbits : bitsOf f.bitRange =
      (List.range' f.bitRange.offset.toNat f.bitRange.width.toNat).map Nat.cast := by
    rw [List.range'_eq_map_range, List.map_map]
    refine List.map_congr_left fun i _ => ?_
    simp only [Function.comp_apply, Int.natCast_add]
    omega
  have hown : (bitsOf f.bitRange).mapM (Position.item? (aliases region address size)) =
      some ((List.range' f.bitRange.offset.toNat f.bitRange.width.toNat).map
        (region.wordOf address)) := by
    rw [hbits, List.mapM_map]
    refine mapM_eq_some_of_forall fun b hb => ?_
    have hsize : b < size.toNat := by
      rw [List.mem_range'_1] at hb
      omega
    rw [Function.comp_apply, Position.item?_natCast, aliases_eq, List.getElem?_map,
      List.getElem?_range hsize]
    rfl
  unfold Field.withAliases
  rw [hown]
  rfl

theorem Register.withAliases_eq (regions : List ConfiguredRegion) {r : Register}
    (inside : ∀ f ∈ r.fields, f.Inside r.size) :
    r.withAliases regions = .ok (r.aliased regions) := by
  unfold Register.withAliases Register.aliased
  rw [regionAt?_eq]
  cases firstRegion? regions r.address with
  | none => rfl
  | some g =>
      have hfields : r.fields.mapM (Field.withAliases (aliases g.toRegion r.address r.size)) =
          .ok (r.fields.map (Field.aliased g.toRegion r.address)) :=
        mapM_eq_ok_of_forall fun f hf => Field.withAliases_eq (inside f hf)
      dsimp only
      rw [hfields, ok_bind, aliases_eq]
      rfl

mutual

theorem Member.withAliases_eq (regions : List ConfiguredRegion) : ∀ m : Member,
    (∀ r ∈ m.registers, ∀ f ∈ r.fields, f.Inside r.size) →
      m.withAliases regions = .ok (m.mapRegisters (Register.aliased regions))
  | .register r, inside => by
      rw [Member.withAliases,
        Register.withAliases_eq regions (inside r (List.mem_singleton_self r))]
      rfl
  | .cluster c ms, inside => by
      rw [Member.withAliases, Member.withAliasesAll_eq regions ms inside]
      rfl

theorem Member.withAliasesAll_eq (regions : List ConfiguredRegion) : ∀ ms : List Member,
    (∀ r ∈ Member.registersAll ms, ∀ f ∈ r.fields, f.Inside r.size) →
      Member.withAliasesAll regions ms =
        .ok (Member.mapRegistersAll (Register.aliased regions) ms)
  | [], _ => rfl
  | m :: ms, inside => by
      rw [Member.registersAll, List.forall_mem_append] at inside
      rw [Member.withAliasesAll, Member.withAliases_eq regions m inside.1,
        Member.withAliasesAll_eq regions ms inside.2]
      rfl

end

theorem Peripheral.withAliases_eq (regions : List ConfiguredRegion) {p : Peripheral}
    (inside : ∀ r ∈ p.registers, ∀ f ∈ r.fields, f.Inside r.size) :
    p.withAliases regions = .ok (p.mapRegisters (Register.aliased regions)) := by
  rw [Peripheral.registers, registersOf_eq_registersAll] at inside
  rw [Peripheral.withAliases, Member.withAliasesAll_eq regions p.members inside]
  rfl

/-! ### Unused regions -/

namespace BitBand

theorem distinctRegions_sublist (regions : List ConfiguredRegion) :
    (distinctRegions regions).Sublist regions := by
  induction regions with
  | nil => exact .slnil
  | cons g gs ih => exact (List.filter_sublist.trans ih).cons_cons g

theorem nodup_distinctRegions (regions : List ConfiguredRegion) :
    ((distinctRegions regions).map (·.toRegion)).Nodup := by
  induction regions with
  | nil => exact List.nodup_nil
  | cons g gs ih =>
      rw [distinctRegions, List.map_cons, List.nodup_cons]
      refine ⟨fun hmem => ?_, ih.sublist (List.filter_sublist.map _)⟩
      obtain ⟨g', hg', heq⟩ := List.mem_map.1 hmem
      exact of_decide_eq_true (List.mem_filter.1 hg').2 heq

/-- Of equal regions the first one is kept. -/
theorem mem_distinctRegions_iff {regions : List ConfiguredRegion} {g : ConfiguredRegion} :
    g ∈ distinctRegions regions ↔ regions.find? (·.toRegion = g.toRegion) = some g := by
  induction regions with
  | nil => simp [distinctRegions]
  | cons g' gs ih =>
      rw [distinctRegions, List.mem_cons, List.mem_filter, ih, List.find?_cons]
      by_cases heq : g'.toRegion = g.toRegion
      · simp [heq, eq_comm]
      · have hne : g ≠ g' := fun h => heq (h ▸ rfl)
        simp [heq, hne, Ne.symm heq]

/-- Some of the regions are those that come first for none of the registers. Of equal regions the
first one stands for all. -/
structure Unused (regions : List ConfiguredRegion) (rs : List Register)
    (unused : List ConfiguredRegion) : Prop where
  inOrder : unused.Sublist regions
  distinct : (unused.map (·.toRegion)).Nodup
  mem_iff : ∀ g, g ∈ unused ↔ regions.find? (·.toRegion = g.toRegion) = some g ∧
    ∀ r ∈ rs, ∀ first, firstRegion? regions r.address = some first → first.toRegion ≠ g.toRegion

theorem unused_unusedRegions (regions : List ConfiguredRegion) (rs : List Register) :
    Unused regions rs (unusedRegions regions rs) where
  inOrder := List.filter_sublist.trans (distinctRegions_sublist regions)
  distinct := (nodup_distinctRegions regions).sublist (List.filter_sublist.map _)
  mem_iff g := by
    rw [unusedRegions, List.mem_filter, mem_distinctRegions_iff]
    refine and_congr_right fun _ => ?_
    simp [regionAt?_eq]

end BitBand

/-! ### Devices -/

/-- If all fields of a device lie in their registers, each register comes to have the words for its
bits in the first region that includes its address, each field those for its own bits, and nothing
else is changed. Each region that comes first for no register is reported once. -/
theorem Device.withAliases_of_fields_inside (regions : List ConfiguredRegion) (d : Device)
    (inside : ∀ r ∈ d.registers, ∀ f ∈ r.fields, f.Inside r.size) :
    (d.withAliases regions).result = .ok (d.mapRegisters (Register.aliased regions)) ∧
      ∃ unused, Unused regions d.registers unused ∧
        (d.withAliases regions).events =
          unused.map (fun g => .unusedRegion g.setting.describe) ++
            [.aliased (aliasedCount regions d.registers)] := by
  have hperipherals : d.peripherals.mapM (Peripheral.withAliases regions) =
      .ok (d.peripherals.map (Peripheral.mapRegisters (Register.aliased regions))) :=
    mapM_eq_ok_of_forall fun p hp => Peripheral.withAliases_eq regions fun r hr =>
      inside r (List.mem_flatMap.2 ⟨p, hp, hr⟩)
  have hrun : d.withAliases regions =
      { events := (unusedRegions regions d.registers).map
            (fun g => .unusedRegion g.setting.describe) ++
          [.aliased (aliasedCount regions d.registers)]
        result := .ok (d.mapRegisters (Register.aliased regions)) } := by
    unfold Device.withAliases
    rw [hperipherals]
    simp only [bind, Logged.ofExcept, Logged.noteAll, Logged.note, pure, List.nil_append,
      List.append_nil]
    rfl
  rw [hrun]
  exact ⟨rfl, _, unused_unusedRegions regions d.registers, rfl⟩

/-- A field of two bits in a register of one byte, which lies in a cluster. -/
def clusteredDevice : Device where
  name := "DEV"
  peripherals := [{
    name := "P", path := ⟨["DEV", "P"]⟩, address := 0x20000000
    members := [.cluster
      { name := "C", path := ⟨["DEV", "P", "C"]⟩, offset := 0, address := 0x20000000, size := 2 }
      [.register {
        name := "R", path := ⟨["DEV", "P", "C", "R"]⟩, offset := 1, address := 0x20000001
        size := 8, access := .readWrite, resetValue := 0, resetMask := 0xFF
        fields := [{
          name := "F", path := ⟨["DEV", "P", "C", "R", "F"]⟩, bitRange := ⟨6, 2⟩
          access := .readWrite }] }]] }]

/-- A region around the cluster, once more the same region, and one without registers. -/
def clusterRegions : List ConfiguredRegion :=
  let region (base size words : Int) : ConfiguredRegion :=
    { addressableBase := base, addressableSize := size, aliasBase := words
      setting := ⟨.number base, .number size, .number words⟩ }
  [region 0x20000000 2 0x22000000, region 0x20000000 2 0x22000000, region 0x30000000 4 0x22000000]

theorem Device.withAliases_of_fields_inside_clustered :
    (∀ r ∈ clusteredDevice.registers, ∀ f ∈ r.fields, f.Inside r.size) ∧
      ∃ d, (clusteredDevice.withAliases clusterRegions).result = .ok d ∧
        d.registers.map (·.bitBand) = [some [0x22000020, 0x22000024, 0x22000028, 0x2200002C,
          0x22000030, 0x22000034, 0x22000038, 0x2200003C]] ∧
        (d.registers.flatMap (·.fields)).map (·.bitBand) = [some [0x22000038, 0x2200003C]] := by
  have inside : ∀ r ∈ clusteredDevice.registers, ∀ f ∈ r.fields, f.Inside r.size := by
    rw [Device.registers_eq]
    decide
  obtain ⟨hresult, -⟩ :=
    Device.withAliases_of_fields_inside clusterRegions clusteredDevice inside
  refine ⟨inside, _, hresult, ?_⟩
  rw [Device.registers_eq]
  decide

end RegisterMap
