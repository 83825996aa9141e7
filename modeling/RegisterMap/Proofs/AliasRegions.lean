import RegisterMap.Proofs.Document
import RegisterMap.Proofs.Origins

/-!
# Where aliases lie

A region is accepted only if the aliases of its bytes lie in the address space. Which registers get
aliases is decided by their first byte, and then every bit of the register gets one. So the aliases
of a register stay among those of its region as far as its bytes do: a register in the region has
all of its aliases there, and one that goes on behind the end of the region has aliases behind the
end of its aliases.
-/

namespace RegisterMap

/-- A computation behind a check succeeds if the check is passed and the rest succeeds. -/
theorem throw_or_eq_ok_iff {ε β : Type} {c : Prop} [Decidable c] {e : ε} {f : Unit → Except ε β}
    {b : β} : (if c then throw e >>= f else f ()) = .ok b ↔ ¬ c ∧ f () = .ok b := by
  by_cases hc : c
  · rw [if_pos hc]
    exact ⟨nofun, fun h => absurd hc h.1⟩
  · rw [if_neg hc]
    exact ⟨fun h => ⟨hc, h⟩, And.right⟩

namespace BitBand

/-- The region has bytes, and the aliases of its bytes lie in the address space. -/
structure Region.Usable (g : Region) : Prop where
  positive : 0 < g.addressableSize
  base : 0 ≤ g.addressableBase
  start : 0 ≤ g.aliasBase
  stop : g.aliasEnd ≤ addressSpaceEnd

theorem usable_of_regionOf {setting : RegionSetting} {g : ConfiguredRegion}
    (h : regionOf setting = .ok g) : g.toRegion.Usable := by
  obtain ⟨size, -, h⟩ := bind_eq_ok_iff.1 h
  obtain ⟨positive, h⟩ := throw_or_eq_ok_iff.1 h
  obtain ⟨base, -, h⟩ := bind_eq_ok_iff.1 h
  obtain ⟨base_nonneg, h⟩ := throw_or_eq_ok_iff.1 h
  obtain ⟨start, -, h⟩ := bind_eq_ok_iff.1 h
  obtain ⟨start_nonneg, h⟩ := throw_or_eq_ok_iff.1 h
  obtain ⟨-, h⟩ := throw_or_eq_ok_iff.1 h
  obtain ⟨-, h⟩ := throw_or_eq_ok_iff.1 h
  obtain ⟨stop, h⟩ := throw_or_eq_ok_iff.1 h
  cases h
  exact ⟨Int.not_le.1 positive, Int.not_lt.1 base_nonneg, Int.not_lt.1 start_nonneg,
    Int.not_lt.1 stop⟩

/-- The regions of a configuration are accepted only if each of them is usable. -/
theorem usable_of_regionsOf {entries : List Setting} {regions : List ConfiguredRegion}
    (h : regionsOf entries = .ok regions) {g : ConfiguredRegion} (hg : g ∈ regions) :
    g.toRegion.Usable := by
  obtain ⟨settings, -, h⟩ := bind_eq_ok_iff.1 h
  obtain ⟨setting, -, hsetting⟩ := exists_mem_left (mapM_eq_ok_iff.1 h) hg
  exact usable_of_regionOf hsetting

/-- The word for a bit is one of the aliases of the region exactly if the byte that holds the bit
lies in the region. -/
theorem Region.wordOf_lt_aliasEnd_iff (g : Region) (address : Int) (bit : Nat) :
    g.wordOf address bit < g.aliasEnd ↔
      address + bit / 8 < g.addressableBase + g.addressableSize := by
  simp only [Region.wordOf, Region.aliasEnd, aliasBytesPerByte]
  omega

end BitBand

open BitBand

/-- The aliases of the register and of its fields. -/
def Register.words (r : Register) : List Int :=
  r.bitBand.getD [] ++ r.fields.flatMap fun f => f.bitBand.getD []

theorem exists_mem_of_mapM_eq_some {α β : Type} {f : α → Option β} {as : List α} {bs : List β}
    (h : as.mapM f = some bs) {b : β} (hb : b ∈ bs) : ∃ a ∈ as, f a = some b := by
  induction as generalizing bs with
  | nil =>
      cases h
      cases hb
  | cons a as ih =>
      rw [List.mapM_cons] at h
      obtain ⟨b', hb', h⟩ := Option.bind_eq_some_iff.1 h
      obtain ⟨rest, hrest, h⟩ := Option.bind_eq_some_iff.1 h
      cases h
      rcases List.mem_cons.1 hb with rfl | hb
      · exact ⟨a, List.mem_cons_self, hb'⟩
      · obtain ⟨a', ha', heq⟩ := ih hrest hb
        exact ⟨a', List.mem_cons_of_mem a ha', heq⟩

theorem Position.mem_of_item? {α : Type} {items : List α} {i : Int} {a : α}
    (h : item? items i = some a) : a ∈ items := by
  obtain ⟨n, -, ha⟩ := Option.bind_eq_some_iff.1 h
  exact List.mem_of_getElem? ha

/-- A register whose aliases are added has only words for its own bits, in the first region that
includes its address. Fields count bits below zero from the back of their register, so this holds
for them wherever they lie. -/
theorem Register.exists_bit_of_withAliases {regions : List ConfiguredRegion} {r r' : Register}
    (plain : r.words = []) (h : r.withAliases regions = .ok r') {a : Int} (ha : a ∈ r'.words) :
    ∃ g, firstRegion? regions r.address = some g ∧
      ∃ bit : Nat, (bit : Int) < r.size ∧ a = g.wordOf r.address bit := by
  unfold Register.withAliases at h
  rw [regionAt?_eq] at h
  split at h
  · cases h
    rw [plain] at ha
    cases ha
  · next g hg =>
    obtain ⟨fields, hfields, h⟩ := bind_eq_ok_iff.1 h
    cases h
    have hown : a ∈ aliases g.toRegion r.address r.size := by
      rcases List.mem_append.1 ha with ha | ha
      · exact ha
      · obtain ⟨f', hf', ha⟩ := List.mem_flatMap.1 ha
        obtain ⟨f, -, hstep⟩ := exists_mem_left (mapM_eq_ok_iff.1 hfields) hf'
        unfold Field.withAliases at hstep
        split at hstep
        · next own hitems =>
          cases hstep
          obtain ⟨i, -, hi⟩ := exists_mem_of_mapM_eq_some hitems ha
          exact Position.mem_of_item? hi
        · cases hstep
    rw [aliases_eq] at hown
    obtain ⟨bit, hbit, rfl⟩ := List.mem_map.1 hown
    refine ⟨g, hg, bit, ?_, rfl⟩
    rw [List.mem_range] at hbit
    omega

/-- Every alias in a device is the word for a bit of its register, in the first of the accepted
regions that includes the address of the register. It lies behind the start of the aliases of the
region; it lies before their end, and so in the address space, exactly if the byte with the bit is
in the region. All bytes of a register that ends in the region are. -/
theorem parse_places_aliases {source : Source} {config : Config}
    {regions : List ConfiguredRegion} {d : Device} (wanted : config.enableBitBand)
    (accepted : regionsOf config.bitBandRegions = .ok regions)
    (h : (parse source config).result = .ok d) :
    ∀ r ∈ d.registers, ∀ a ∈ r.words, ∃ g, firstRegion? regions r.address = some g ∧
      ∃ bit : Nat, (bit : Int) < r.size ∧ a = g.wordOf r.address bit ∧ g.aliasBase ≤ a ∧
        (a < g.aliasBase + 32 * g.addressableSize ↔
          r.address + bit / 8 < g.addressableBase + g.addressableSize) ∧
        (r.range.stop ≤ g.addressableBase + g.addressableSize →
          0 ≤ a ∧ a < g.aliasBase + 32 * g.addressableSize ∧ a < 2 ^ 32) := by
  obtain ⟨root, regions', placed, plain, -, hregions, -, hplain, haliases⟩ :=
    exists_placed_of_parse h
  rw [Config.regions, if_pos wanted, accepted] at hregions
  cases hregions
  intro r' hr' a ha
  obtain ⟨r, hr, hstep⟩ := exists_mem_left (Device.registers_withAliases haliases) hr'
  obtain ⟨path, dr, -, hmade⟩ := Device.exists_draft_of_register (P := fun _ => True) hplain
    ((Draft.Member.eachAll_iff_forall_levels default _).2 fun _ _ => trivial) hr
  have hfrom := Register.madeFrom_ofDraft hmade
  -- The register has no words when it is made, so all of them are added in the last stage.
  have hwords : r.words = [] := by
    rw [Register.words, hfrom.plain, Option.getD_none, List.nil_append, List.flatMap_eq_nil_iff]
    intro f hf
    rw [(hfrom.fields f hf).1, Option.getD_none]
  obtain ⟨g, hg, bit, hbit, rfl⟩ := Register.exists_bit_of_withAliases hwords hstep ha
  have hsame : r'.address = r.address ∧ r'.size = r.size := by
    rw [Member.withAliases_register hstep]
    exact ⟨rfl, rfl⟩
  rw [← hsame.1] at hg ⊢
  rw [← hsame.2] at hbit
  have husable := usable_of_regionsOf accepted (List.mem_of_find?_eq_some hg)
  have hinside : g.addressableBase ≤ r'.address := by
    have hfound := List.find?_some hg
    exact (of_decide_eq_true hfound).1
  have hstop := g.wordOf_lt_aliasEnd_iff r'.address bit
  have hlower : g.aliasBase ≤ g.wordOf r'.address bit := by
    simp only [Region.wordOf]
    omega
  have hend : g.aliasEnd = g.aliasBase + 32 * g.addressableSize := by
    simp only [Region.aliasEnd, aliasBytesPerByte]
    omega
  have hspace := husable.stop
  rw [hend] at hstop hspace
  refine ⟨g, hg, bit, hbit, rfl, hlower, hstop, fun hends => ?_⟩
  have hbyte : r'.address + bit / 8 < g.addressableBase + g.addressableSize := by
    simp only [Register.range, Register.byteSize] at hends
    omega
  refine ⟨husable.start.trans hlower, hstop.2 hbyte, (hstop.2 hbyte).trans_le hspace⟩

/-! ### A region that ends before its register does -/

open Element in
/-- A register of four bytes at the start of a peripheral. -/
def wordRoot : Element :=
  node "device" [leaf "name" "D", leaf "size" "32", leaf "resetValue" "0", node "peripherals" [
    node "peripheral" [leaf "name" "P", leaf "baseAddress" "0x20000000", node "registers" [
      node "register" [leaf "name" "R", leaf "addressOffset" "0"]]]]]

/-- The lines of the document with these elements. -/
def wordLines : List String := [
  "<device><name>D</name><size>32</size><resetValue>0</resetValue><peripherals>",
  "<peripheral><name>P</name><baseAddress>0x20000000</baseAddress><registers>",
  "<register><name>R</name><addressOffset>0</addressOffset></register>",
  "</registers></peripheral></peripherals></device>"]

set_option maxRecDepth 10000 in
theorem read_word : (Source.text (String.join wordLines)).read = .ok wordRoot := by
  have hlines : wordLines = List.map String.ofList [_, _, _, _] := rfl
  change Markup.readText (String.join wordLines) = .ok wordRoot
  refine Markup.readText_join hlines ?_ ?_ ?_
  · decide +kernel
  · rfl
  · decide +kernel

/-- One region from the start of the peripheral on, the aliases of which end with the address
space. -/
def lastRegion (bytes : Int) : ConfiguredRegion where
  addressableBase := 0x20000000
  addressableSize := bytes
  aliasBase := 0x100000000 - 32 * bytes
  setting := ⟨.number 0x20000000, .number bytes, .number (0x100000000 - 32 * bytes)⟩

/-- Aliases are wanted in the region. -/
def lastRegionConfig (bytes : Int) : Config where
  enableBitBand := true
  bitBandRegions := [.sequence
    [.number 0x20000000, .number bytes, .number (0x100000000 - 32 * bytes)]]

/-- The document has a device with the region, and a test of it can be evaluated. -/
theorem exists_parse_word {bytes : Int} {p : Device → Bool}
    (accepted : regionsOf (lastRegionConfig bytes).bitBandRegions = .ok [lastRegion bytes])
    (h : ((Draft.buildDevice wordRoot).result >>=
      complete (lastRegionConfig bytes) [lastRegion bytes]).toOption.any p) :
    ∃ d, (parse (.text (String.join wordLines)) (lastRegionConfig bytes)).result = .ok d ∧ p d := by
  have hregions : (lastRegionConfig bytes).regions = .ok [lastRegion bytes] := accepted
  rw [← parse_eq hregions read_word] at h
  exact exists_ok_of_any h

/-- The last bit of a register that ends with its region has the last alias of the region, which is
the last one in the address space. -/
theorem parse_places_aliases_word :
    ∃ d, (parse (.text (String.join wordLines)) (lastRegionConfig 4)).result = .ok d ∧
      ∃ r ∈ d.registers, 0xFFFFFFFC ∈ r.words ∧ ∀ a ∈ r.words, 0 ≤ a ∧ a < 2 ^ 32 := by
  have accepted : regionsOf (lastRegionConfig 4).bitBandRegions = .ok [lastRegion 4] := rfl
  obtain ⟨d, hd, h⟩ := exists_parse_word accepted (p := fun d =>
    d.registers.any fun r => r.words.contains 0xFFFFFFFC &&
      decide (r.range.stop ≤ 0x20000000 + 4)) (by
    simp only [Device.registers_eq]
    decide +kernel)
  simp only [List.any_eq_true, Bool.and_eq_true, decide_eq_true_eq, List.contains_iff_mem] at h
  obtain ⟨r, hr, hlast, hends⟩ := h
  refine ⟨d, hd, r, hr, hlast, fun a ha => ?_⟩
  have wanted : (lastRegionConfig 4).enableBitBand := rfl
  obtain ⟨g, hg, bit, -, -, -, -, hinside⟩ := parse_places_aliases wanted accepted hd r hr a ha
  obtain rfl := List.mem_singleton.1 (List.mem_of_find?_eq_some hg)
  obtain ⟨hlower, -, hupper⟩ := hinside hends
  exact ⟨hlower, hupper⟩

/-- A register that goes on behind the end of its region has aliases behind the end of its aliases,
outside of the address space. -/
theorem parse_places_aliases_behind_region :
    regionsOf (lastRegionConfig 1).bitBandRegions = .ok [lastRegion 1] ∧
      ∃ d, (parse (.text (String.join wordLines)) (lastRegionConfig 1)).result = .ok d ∧
        ∃ r ∈ d.registers, firstRegion? [lastRegion 1] r.address = some (lastRegion 1) ∧
          ∃ a ∈ r.words, ¬ a < (lastRegion 1).aliasBase + 32 * (lastRegion 1).addressableSize ∧
            ¬ a < 2 ^ 32 := by
  have accepted : regionsOf (lastRegionConfig 1).bitBandRegions = .ok [lastRegion 1] := rfl
  obtain ⟨d, hd, h⟩ := exists_parse_word accepted (p := fun d =>
    d.registers.any fun r => r.words.contains 0x100000000 && decide (r.address = 0x20000000)) (by
    simp only [Device.registers_eq]
    decide +kernel)
  simp only [List.any_eq_true, Bool.and_eq_true, decide_eq_true_eq, List.contains_iff_mem] at h
  obtain ⟨r, hr, hbehind, haddress⟩ := h
  refine ⟨accepted, d, hd, r, hr, ?_, _, hbehind, by decide, by decide⟩
  rw [haddress]
  rfl

end RegisterMap
