import RegisterMap.Proofs.AliasRegions

/-!
# Words of different bits

A region gives words to the bits of its registers by their place in memory alone: two bits have the
same word if and only if they are the same bit of the same byte. So no two bits of a register share
a word, and registers without a common byte have no word in common. Words are aligned, because the
words of an accepted region start at an aligned address.
-/

namespace RegisterMap

namespace BitBand

/-- In one region a word tells the bit for which it stands. -/
theorem Region.wordOf_eq_wordOf_iff (g : Region) {a b : Int} {i j : Nat} :
    g.wordOf a i = g.wordOf b j ↔ 8 * a + i = 8 * b + j := by
  simp only [Region.wordOf]
  omega

theorem aligned_of_regionOf {setting : RegionSetting} {g : ConfiguredRegion}
    (h : regionOf setting = .ok g) : g.aliasBase % 4 = 0 := by
  obtain ⟨size, -, h⟩ := bind_eq_ok_iff.1 h
  obtain ⟨-, h⟩ := throw_or_eq_ok_iff.1 h
  obtain ⟨base, -, h⟩ := bind_eq_ok_iff.1 h
  obtain ⟨-, h⟩ := throw_or_eq_ok_iff.1 h
  obtain ⟨start, -, h⟩ := bind_eq_ok_iff.1 h
  obtain ⟨-, h⟩ := throw_or_eq_ok_iff.1 h
  obtain ⟨-, h⟩ := throw_or_eq_ok_iff.1 h
  obtain ⟨aligned, h⟩ := throw_or_eq_ok_iff.1 h
  obtain ⟨-, h⟩ := throw_or_eq_ok_iff.1 h
  cases h
  exact Decidable.not_not.1 aligned

/-- The words of an accepted region start at an aligned address. -/
theorem aligned_of_regionsOf {entries : List Setting} {regions : List ConfiguredRegion}
    (h : regionsOf entries = .ok regions) {g : ConfiguredRegion} (hg : g ∈ regions) :
    g.aliasBase % 4 = 0 := by
  obtain ⟨settings, -, h⟩ := bind_eq_ok_iff.1 h
  obtain ⟨setting, -, hsetting⟩ := exists_mem_left (mapM_eq_ok_iff.1 h) hg
  exact aligned_of_regionOf hsetting

end BitBand

open BitBand

namespace Register

/-- The words for the bits of the register in a region, in the order of the bits. -/
def wordsIn (r : Register) (g : Region) : List Int :=
  (List.range r.size.toNat).map (g.wordOf r.address)

theorem getElem?_wordsIn_eq_some_iff {r : Register} {g : Region} {i : Nat} {a : Int} :
    (r.wordsIn g)[i]? = some a ↔ (i : Int) < r.size ∧ a = g.wordOf r.address i := by
  rw [wordsIn, List.getElem?_map, Option.map_eq_some_iff]
  simp only [List.getElem?_eq_some_iff, List.getElem_range, List.length_range]
  constructor
  · rintro ⟨_, ⟨hi, rfl⟩, rfl⟩
    exact ⟨by omega, rfl⟩
  · rintro ⟨hi, rfl⟩
    exact ⟨i, ⟨by omega, rfl⟩, rfl⟩

theorem mem_wordsIn_iff {r : Register} {g : Region} {a : Int} :
    a ∈ r.wordsIn g ↔ ∃ i : Nat, (i : Int) < r.size ∧ a = g.wordOf r.address i := by
  rw [List.mem_iff_getElem?]
  exact exists_congr fun i => getElem?_wordsIn_eq_some_iff

theorem nodup_wordsIn (r : Register) (g : Region) : (r.wordsIn g).Nodup := by
  refine List.nodup_range.map fun i j hij => ?_
  have hbits := g.wordOf_eq_wordOf_iff.1 hij
  omega

/-- Registers that share no byte share no word. -/
theorem disjoint_wordsIn {r s : Register} (g : Region) (apart : ¬ r.range.Intersects s.range) :
    (r.wordsIn g).Disjoint (s.wordsIn g) := by
  intro a hr hs
  obtain ⟨i, hi, rfl⟩ := mem_wordsIn_iff.1 hr
  obtain ⟨j, hj, hij⟩ := mem_wordsIn_iff.1 hs
  have hbits := g.wordOf_eq_wordOf_iff.1 hij
  -- The byte that holds the bit belongs to both registers.
  refine apart ⟨r.address + i / 8, ?_, ?_⟩
  · simp only [range, byteSize, AddressRange.mem_iff]
    omega
  · simp only [range, byteSize, AddressRange.mem_iff]
    omega

/-- A register in a region gets the words for its bits, and its fields get some of these. -/
theorem bitBand_of_withAliases {regions : List ConfiguredRegion} {r r' : Register}
    {g : ConfiguredRegion} (h : r.withAliases regions = .ok r')
    (hg : firstRegion? regions r'.address = some g) :
    r'.bitBand = some (r'.wordsIn g.toRegion) ∧ ∀ a ∈ r'.words, a ∈ r'.wordsIn g.toRegion := by
  have haddress : r'.address = r.address := by
    rw [Member.withAliases_register h]
  rw [haddress] at hg
  unfold Register.withAliases at h
  rw [regionAt?_eq, hg] at h
  obtain ⟨fields, hfields, h⟩ := bind_eq_ok_iff.1 h
  cases h
  have hown : aliases g.toRegion r.address r.size = r.wordsIn g.toRegion := aliases_eq _ _ _
  refine ⟨congrArg some hown, fun a ha => ?_⟩
  change a ∈ r.wordsIn g.toRegion
  rw [← hown]
  rcases List.mem_append.1 ha with ha | ha
  · exact ha
  · obtain ⟨f', hf', ha⟩ := List.mem_flatMap.1 ha
    obtain ⟨f, -, hstep⟩ := exists_mem_left (mapM_eq_ok_iff.1 hfields) hf'
    unfold Field.withAliases at hstep
    split at hstep
    · next own hitems =>
      cases hstep
      obtain ⟨i, -, hi⟩ := exists_mem_of_mapM_eq_some hitems ha
      exact Position.mem_of_item? hi
    · cases hstep

end Register

/-- Every register of a device that lies in an accepted region has the words for its bits there. -/
theorem bitBand_of_parse {source : Source} {config : Config} {regions : List ConfiguredRegion}
    {d : Device} (wanted : config.enableBitBand)
    (accepted : regionsOf config.bitBandRegions = .ok regions)
    (h : (parse source config).result = .ok d) {r : Register} (hr : r ∈ d.registers)
    {g : ConfiguredRegion} (hg : firstRegion? regions r.address = some g) :
    r.bitBand = some (r.wordsIn g.toRegion) ∧ ∀ a ∈ r.words, a ∈ r.wordsIn g.toRegion := by
  obtain ⟨_, regions', _, plain, -, hregions, -, -, haliases⟩ := exists_placed_of_parse h
  rw [Config.regions, if_pos wanted, accepted] at hregions
  cases hregions
  obtain ⟨plainRegister, -, hstep⟩ := exists_mem_left (Device.registers_withAliases haliases) hr
  exact Register.bitBand_of_withAliases hstep hg

/-- Two registers of a device that get their aliases from one region, which may be the same
register, have one alias for each of their bits. All aliases are multiples of four, and two of them
are equal if and only if they stand for the same bit of memory. So the aliases of one register are
distinct, and registers with disjoint ranges of addresses have disjoint aliases. -/
theorem parse_separates_aliases {source : Source} {config : Config}
    {regions : List ConfiguredRegion} {d : Device} (wanted : config.enableBitBand)
    (accepted : regionsOf config.bitBandRegions = .ok regions)
    (h : (parse source config).result = .ok d) {g : ConfiguredRegion} {r s : Register}
    (hr : r ∈ d.registers) (hs : s ∈ d.registers)
    (hrg : firstRegion? regions r.address = some g)
    (hsg : firstRegion? regions s.address = some g) :
    ∃ as bs, r.bitBand = some as ∧ s.bitBand = some bs ∧
      as.length = r.size.toNat ∧ bs.length = s.size.toNat ∧
      (∀ a ∈ r.words ++ s.words, a % 4 = 0) ∧
      (∀ (i j : Nat) a b, as[i]? = some a → bs[j]? = some b →
        (a = b ↔ 8 * r.address + i = 8 * s.address + j)) ∧
      as.Nodup ∧ bs.Nodup ∧ (¬ r.range.Intersects s.range → as.Disjoint bs) := by
  obtain ⟨hras, hrwords⟩ := bitBand_of_parse wanted accepted h hr hrg
  obtain ⟨hsas, hswords⟩ := bitBand_of_parse wanted accepted h hs hsg
  have aligned := aligned_of_regionsOf accepted (List.mem_of_find?_eq_some hrg)
  have multiple {t : Register} {a : Int} (ha : a ∈ t.wordsIn g.toRegion) : a % 4 = 0 := by
    obtain ⟨i, -, rfl⟩ := Register.mem_wordsIn_iff.1 ha
    simp only [Region.wordOf]
    omega
  refine ⟨_, _, hras, hsas, by simp [Register.wordsIn], by simp [Register.wordsIn], ?_, ?_,
    r.nodup_wordsIn _, s.nodup_wordsIn _, Register.disjoint_wordsIn _⟩
  · intro a ha
    rcases List.mem_append.1 ha with ha | ha
    · exact multiple (hrwords a ha)
    · exact multiple (hswords a ha)
  · intro i j a b ha hb
    obtain ⟨-, rfl⟩ := Register.getElem?_wordsIn_eq_some_iff.1 ha
    obtain ⟨-, rfl⟩ := Register.getElem?_wordsIn_eq_some_iff.1 hb
    exact g.wordOf_eq_wordOf_iff

/-! ### Two views of a byte -/

open Element in
/-- A register of twelve bits, another view of its second byte, and a register behind it. -/
def sharedByteRoot : Element :=
  node "device" [leaf "name" "D", leaf "size" "8", leaf "resetValue" "0", node "peripherals" [
    node "peripheral" [leaf "name" "P", leaf "baseAddress" "0x20000000", node "registers" [
      node "register" [leaf "name" "R", leaf "addressOffset" "0", leaf "size" "12"],
      node "register" [leaf "name" "S", leaf "addressOffset" "1", leaf "alternateRegister" "R"],
      node "register" [leaf "name" "T", leaf "addressOffset" "2"]]]]]

/-- The lines of the document with these elements. -/
def sharedByteLines : List String := [
  "<device><name>D</name><size>8</size><resetValue>0</resetValue><peripherals>",
  "<peripheral><name>P</name><baseAddress>0x20000000</baseAddress><registers>",
  "<register><name>R</name><addressOffset>0</addressOffset><size>12</size></register>",
  "<register><name>S</name><addressOffset>1</addressOffset>",
  "<alternateRegister>R</alternateRegister></register>",
  "<register><name>T</name><addressOffset>2</addressOffset></register>",
  "</registers></peripheral></peripherals></device>"]

set_option maxRecDepth 10000 in
theorem read_sharedByte :
    (Source.text (String.join sharedByteLines)).read = .ok sharedByteRoot := by
  have hlines : sharedByteLines = List.map String.ofList [_, _, _, _, _, _, _] := rfl
  change Markup.readText (String.join sharedByteLines) = .ok sharedByteRoot
  refine Markup.readText_join hlines ?_ ?_ ?_
  · decide +kernel
  · rfl
  · decide +kernel

set_option maxRecDepth 20000 in
/-- The ninth bit of a register and the first bit of a view of its second byte have one alias. The
register behind them has none of their aliases. -/
theorem parse_separates_aliases_sharedByte :
    ∃ d r s t, (parse (.text (String.join sharedByteLines)) (lastRegionConfig 4)).result = .ok d ∧
      d.registers = [r, s, t] ∧ ∃ as bs cs, r.bitBand = some as ∧ s.bitBand = some bs ∧
        t.bitBand = some cs ∧ as.length = 12 ∧ as[8]? = bs[0]? ∧ as.Disjoint cs := by
  have accepted : regionsOf (lastRegionConfig 4).bitBandRegions = .ok [lastRegion 4] := rfl
  have hregions : (lastRegionConfig 4).regions = .ok [lastRegion 4] := accepted
  have wanted : (lastRegionConfig 4).enableBitBand := rfl
  have hbuilt : ((Draft.buildDevice sharedByteRoot).result >>=
      complete (lastRegionConfig 4) [lastRegion 4]).toOption.any fun d =>
        d.registers.map (fun r => (r.address - 0x20000000, r.size)) =
          [(0, 12), (1, 8), (2, 8)] := by
    simp only [Device.registers_eq]
    cbv
  rw [← parse_eq hregions read_sharedByte] at hbuilt
  obtain ⟨d, hd, h⟩ := exists_ok_of_any hbuilt
  rw [decide_eq_true_eq] at h
  obtain ⟨r, rest, hregisters, hr, h⟩ := List.map_eq_cons_iff.1 h
  obtain ⟨s, rest, rfl, hs, h⟩ := List.map_eq_cons_iff.1 h
  obtain ⟨t, rest, rfl, ht, h⟩ := List.map_eq_cons_iff.1 h
  obtain rfl := List.map_eq_nil_iff.1 h
  rw [Prod.mk.injEq] at hr hs ht
  have mem {x : Register} (hx : x ∈ [r, s, t]) : x ∈ d.registers := by rwa [hregisters]
  have inRegion {x : Register} (lower : 0x20000000 ≤ x.address) (upper : x.address < 0x20000004) :
      firstRegion? [lastRegion 4] x.address = some (lastRegion 4) :=
    List.find?_cons_of_pos (by simp [lastRegion, lower, upper])
  have hrg := inRegion (x := r) (by omega) (by omega)
  have hsg := inRegion (x := s) (by omega) (by omega)
  have htg := inRegion (x := t) (by omega) (by omega)
  obtain ⟨as, bs, has, hbs, hlength, hlength', -, same, -⟩ :=
    parse_separates_aliases wanted accepted hd (mem (by simp)) (mem (by simp)) hrg hsg
  obtain ⟨as', cs, has', hcs, -, -, -, -, -, -, apart⟩ :=
    parse_separates_aliases wanted accepted hd (mem (by simp)) (mem (by simp)) hrg htg
  obtain rfl := Option.some.inj (has.symm.trans has')
  rw [hr.2] at hlength
  rw [hs.2] at hlength'
  refine ⟨d, r, s, t, hd, hregisters, as, bs, cs, has, hbs, hcs, hlength, ?_, apart ?_⟩
  · have ha : as[8]? = some as[8] := List.getElem?_eq_getElem (by omega)
    have hb : bs[0]? = some bs[0] := List.getElem?_eq_getElem (by omega)
    rw [ha, hb, (same 8 0 _ _ ha hb).2 (by omega)]
  · rw [AddressRange.intersects_iff]
    simp only [Register.range, Register.byteSize, hr.2, ht.2]
    omega

end RegisterMap
