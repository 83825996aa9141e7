import RegisterMap.Proofs.Passes
import RegisterMap.Proofs.Separation
import RegisterMap.Proofs.Stages

/-!
# The addresses that a peripheral occupies

Peripherals are compared as drafts, before the device is made. A peripheral without address blocks
occupies the span of its members, from the first start to the last end. Here the draft and the
device differ: the comparison spans all members, the device only those that hold an address. A
cluster without members holds none, and it may lie anywhere.

So both agree on a peripheral exactly if it occupies all addresses between its members
(`Peripheral.SpansMembers`), which it does if each of them holds an address. Only between such
peripherals is a conflict known to be one of addresses that the device shows.
-/

namespace RegisterMap

/-! ### Spans -/

namespace AddressRange

/-- The range from the first start to the last end of some ranges, if there are any. -/
def span (rs : List AddressRange) : List AddressRange :=
  match (rs.map (·.start)).min?, (rs.map (·.stop)).max? with
  | some start, some stop => [⟨start, stop⟩]
  | _, _ => []

theorem length_span_le (rs : List AddressRange) : (span rs).length ≤ 1 := by
  unfold span
  split
  · exact Nat.le_refl 1
  · exact Nat.zero_le 1

/-- The addresses in a span are those between the start of one range and the end of another. -/
theorem exists_mem_span_iff {rs : List AddressRange} {a : Int} :
    (∃ t ∈ span rs, a ∈ t) ↔ ∃ r ∈ rs, ∃ s ∈ rs, r.start ≤ a ∧ a < s.stop := by
  unfold span
  split
  · next start stop hstart hstop =>
    obtain ⟨hfirst, hstart⟩ := List.min?_eq_some_iff.1 hstart
    obtain ⟨hlast, hstop⟩ := List.max?_eq_some_iff.1 hstop
    simp only [List.mem_singleton, exists_eq_left, mem_iff]
    constructor
    · rintro ⟨hle, hlt⟩
      obtain ⟨r, hr, rfl⟩ := List.mem_map.1 hfirst
      obtain ⟨s, hs, rfl⟩ := List.mem_map.1 hlast
      exact ⟨r, hr, s, hs, hle, hlt⟩
    · rintro ⟨r, hr, s, hs, hle, hlt⟩
      exact ⟨(hstart _ (List.mem_map_of_mem hr)).trans hle,
        hlt.trans_le (hstop _ (List.mem_map_of_mem hs))⟩
  · next hnone =>
    cases rs with
    | nil => simp
    | cons r rs => exact (hnone _ _ rfl rfl).elim

/-- Empty ranges hold no address. -/
theorem exists_mem_filter_iff {rs : List AddressRange} {a : Int} :
    (∃ t ∈ rs.filter (!·.isEmpty), a ∈ t) ↔ ∃ t ∈ rs, a ∈ t := by
  constructor
  · rintro ⟨t, ht, ha⟩
    exact ⟨t, List.mem_of_mem_filter ht, ha⟩
  · rintro ⟨t, ht, ha⟩
    have hsome : t.start < t.stop := by
      rw [mem_iff] at ha
      omega
    exact ⟨t, List.mem_filter.2 ⟨ht, by simpa [isEmpty] using hsome⟩, ha⟩

theorem eq_of_mem_iff {r s : AddressRange} (hr : r.start < r.stop) (hs : s.start < s.stop)
    (same : ∀ a, a ∈ r ↔ a ∈ s) : r = s := by
  obtain ⟨start, stop⟩ := r
  obtain ⟨start', stop'⟩ := s
  simp only [mem_iff] at same hr hs
  have hstart := same start
  have hstart' := same start'
  have hlast := same (stop - 1)
  have hlast' := same (stop' - 1)
  congr 1
  · omega
  · omega

/-- A list of at most one range that is not empty is known by its addresses. -/
theorem eq_of_exists_mem_iff {rs ss : List AddressRange} (hrs : rs.length ≤ 1)
    (hss : ss.length ≤ 1) (some : ∀ r ∈ rs, r.start < r.stop) (some' : ∀ s ∈ ss, s.start < s.stop)
    (same : ∀ a, (∃ r ∈ rs, a ∈ r) ↔ ∃ s ∈ ss, a ∈ s) : rs = ss :=
  match rs, ss with
  | [], [] => rfl
  | [], s :: _ => by
      have hs := some' s List.mem_cons_self
      obtain ⟨_, hnil, -⟩ := (same s.start).2 ⟨s, List.mem_cons_self, Int.le_refl _, hs⟩
      cases hnil
  | r :: _, [] => by
      have hr := some r List.mem_cons_self
      obtain ⟨_, hnil, -⟩ := (same r.start).1 ⟨r, List.mem_cons_self, Int.le_refl _, hr⟩
      cases hnil
  | [r], [s] => by
      rw [List.forall_mem_singleton] at some some'
      rw [eq_of_mem_iff some some' (by simpa using same)]

/-- At most one range is known by its addresses, unless it is empty. -/
theorem filter_eq_filter_iff {rs ss : List AddressRange} (hrs : rs.length ≤ 1)
    (hss : ss.length ≤ 1) : rs.filter (!·.isEmpty) = ss.filter (!·.isEmpty) ↔
      ∀ a, (∃ r ∈ rs, a ∈ r) ↔ ∃ s ∈ ss, a ∈ s := by
  have hsome (ts : List AddressRange) : ∀ t ∈ ts.filter (!·.isEmpty), t.start < t.stop := by
    simp [isEmpty]
  constructor
  · intro h a
    rw [← exists_mem_filter_iff, h, exists_mem_filter_iff]
  · intro same
    refine eq_of_exists_mem_iff ?_ ?_ (hsome rs) (hsome ss) fun a => ?_
    · exact (List.length_filter_le _ _).trans hrs
    · exact (List.length_filter_le _ _).trans hss
    · rw [exists_mem_filter_iff, exists_mem_filter_iff, same]

end AddressRange

/-! ### Ranges of drafts and of devices -/

/-- The peripheral occupies all addresses from the start of any member up to the end of any member,
unless it has address blocks. -/
def Peripheral.SpansMembers (p : Peripheral) : Prop :=
  p.addressBlocks = [] → ∀ m ∈ p.members, ∀ n ∈ p.members, ∀ a,
    m.range.start ≤ a → a < n.range.stop → ∃ r ∈ p.ranges, a ∈ r

theorem Draft.Peripheral.ranges_of_unblocked {p : Draft.Peripheral}
    (unblocked : p.addressBlocks.getD [] = []) :
    p.ranges = AddressRange.span (p.memberList.map Draft.Member.range) := by
  have hstarts : (p.memberList.map Draft.Member.range).map (·.start) =
      p.memberList.map Draft.Member.start := List.map_map
  have hstops : (p.memberList.map Draft.Member.range).map (·.stop) =
      p.memberList.map Draft.Member.stop := List.map_map
  rw [Draft.Peripheral.ranges, AddressRange.span, unblocked, hstarts, hstops]
  split
  · next hstart hstop => rw [hstart, hstop]
  · next hnone =>
    split
    · next hstart hstop => exact (hnone _ _ rfl hstart hstop).elim
    · rfl

theorem Draft.Peripheral.ranges_of_blocked {p : Draft.Peripheral}
    (blocked : p.addressBlocks.getD [] ≠ []) :
    p.ranges = (p.addressBlocks.getD []).map (·.range (p.address.getD 0)) := by
  rw [Draft.Peripheral.ranges]
  split
  · next hnil _ _ => exact absurd hnil blocked
  · rfl

namespace Peripheral

variable {p : Peripheral}

theorem ranges_of_unblocked (unblocked : p.addressBlocks = []) :
    p.ranges = AddressRange.span ((p.members.map Member.range).filter (!·.isEmpty)) := by
  rw [Peripheral.ranges, unblocked]
  rfl

theorem ranges_of_blocked (blocked : p.addressBlocks ≠ []) :
    p.ranges = p.addressBlocks.map (·.range p.address) :=
  if_neg fun hnil => blocked (List.isEmpty_iff.1 hnil)

/-- A peripheral spans its members if all of them hold an address. -/
theorem SpansMembers.of_nonempty (some : ∀ m ∈ p.members, m.range.start < m.range.stop) :
    p.SpansMembers := by
  intro unblocked m hm n hn a hle hlt
  have hall : (p.members.map Member.range).filter (!·.isEmpty) = p.members.map Member.range := by
    rw [List.filter_eq_self, List.forall_mem_map]
    exact fun m hm => by simpa [AddressRange.isEmpty] using some m hm
  rw [ranges_of_unblocked unblocked, hall, AddressRange.exists_mem_span_iff]
  exact ⟨_, List.mem_map_of_mem hm, _, List.mem_map_of_mem hn, hle, hlt⟩

/-- A peripheral without address blocks spans its members exactly if its ranges and the span of its
members hold the same addresses. -/
theorem spansMembers_iff_of_unblocked (unblocked : p.addressBlocks = []) :
    p.SpansMembers ↔ ∀ a,
      (∃ r ∈ AddressRange.span (p.members.map Member.range), a ∈ r) ↔ ∃ r ∈ p.ranges, a ∈ r := by
  constructor
  · intro spans a
    rw [AddressRange.exists_mem_span_iff]
    constructor
    · rintro ⟨r, hr, s, hs, hle, hlt⟩
      obtain ⟨m, hm, rfl⟩ := List.mem_map.1 hr
      obtain ⟨n, hn, rfl⟩ := List.mem_map.1 hs
      exact spans unblocked m hm n hn a hle hlt
    · rw [ranges_of_unblocked unblocked, AddressRange.exists_mem_span_iff]
      rintro ⟨r, hr, s, hs, hle, hlt⟩
      exact ⟨r, List.mem_of_mem_filter hr, s, List.mem_of_mem_filter hs, hle, hlt⟩
  · intro same _ m hm n hn a hle hlt
    refine (same a).1 (AddressRange.exists_mem_span_iff.2 ?_)
    exact ⟨_, List.mem_map_of_mem hm, _, List.mem_map_of_mem hn, hle, hlt⟩

/-- Apart from empty ranges, a peripheral has those of its draft exactly if it spans its members. -/
theorem filter_ranges_ofDraft_iff {path : NodePath} {dp : Draft.Peripheral}
    (h : Peripheral.ofDraft path dp = .ok p) :
    dp.ranges.filter (!·.isEmpty) = p.ranges.filter (!·.isEmpty) ↔ p.SpansMembers := by
  obtain ⟨address, haddress, h⟩ := bind_eq_ok_iff.1 h
  obtain ⟨members, hmembers, h⟩ := bind_eq_ok_iff.1 h
  obtain ⟨_, -, h⟩ := bind_eq_ok_iff.1 h
  obtain ⟨hp, hblocks, rfl⟩ : p.address = address ∧
      p.addressBlocks = dp.addressBlocks.getD [] ∧ p.members = members := by
    cases h
    exact ⟨rfl, rfl, rfl⟩
  have hranges : p.members.map Member.range = dp.memberList.map Draft.Member.range :=
    (map_eq_map_of_forall₂ (Member.ofDraftAll_eq_ok_iff.1 hmembers) fun _ _ hm =>
      (Member.shownAs_of_ofDraft hm).range.symm).symm
  by_cases unblocked : p.addressBlocks = []
  · rw [spansMembers_iff_of_unblocked unblocked, hranges]
    rw [hblocks] at unblocked
    rw [Draft.Peripheral.ranges_of_unblocked unblocked]
    refine AddressRange.filter_eq_filter_iff (AddressRange.length_span_le _) ?_
    rw [ranges_of_unblocked (hblocks.trans unblocked)]
    exact AddressRange.length_span_le _
  · refine iff_of_true ?_ fun h => absurd h unblocked
    rw [ranges_of_blocked unblocked, hp]
    rw [hblocks] at unblocked ⊢
    rw [Draft.Peripheral.ranges_of_blocked unblocked, Member.resolved_eq_ok_iff.1 haddress]
    rfl

end Peripheral

/-! ### Comparison of peripherals -/

namespace Draft

/-- The ranges of addresses by which the peripheral at a position is compared with the others. -/
def Device.comparedRanges (d : Device) (i : Nat) : List AddressRange :=
  ((peripheralExtents d.path d.peripherals).filter fun e => e.owner == i && !e.range.isEmpty).map
    (·.range)

/-- The conflicts between peripherals. -/
def Device.peripheralConflicts (d : Device) : List Overlap :=
  Extent.conflictsAmong (peripheralExtents d.path d.peripherals)

theorem flatMap_zipIdx_eq {α β : Type} {f : α → List β} {as : List α} {a : α} {i : Nat} (k : Nat)
    (ha : as[i]? = some a) :
    ((as.zipIdx k).flatMap fun x => if x.2 = k + i then f x.1 else []) = f a := by
  induction as generalizing i k with
  | nil => cases ha
  | cons b as ih =>
      rw [List.zipIdx_cons, List.flatMap_cons]
      cases i with
      | zero =>
          cases ha
          have hnone : ∀ x ∈ as.zipIdx (k + 1), (if x.2 = k then f x.1 else []) = [] := by
            rintro ⟨c, j⟩ hx
            rw [if_neg]
            have := (List.le_snd_of_mem_zipIdx hx)
            omega
          rw [Nat.add_zero, if_pos rfl, List.flatMap_eq_nil_iff.2 hnone, List.append_nil]
      | succ i =>
          rw [if_neg (by simp), List.nil_append, ← ih (k + 1) ha]
          congr 1
          funext x
          rw [Nat.add_right_comm, Nat.add_assoc]

theorem Device.comparedRanges_eq {d : Device} {i : Nat} {p : Peripheral}
    (hp : d.peripherals[i]? = some p) : d.comparedRanges i = p.ranges.filter (!·.isEmpty) := by
  rw [Device.comparedRanges, peripheralExtents, List.filter_flatMap, List.map_flatMap]
  rw [← flatMap_zipIdx_eq (f := fun p : Peripheral => p.ranges.filter (!·.isEmpty)) 0 hp]
  congr 1
  funext x
  by_cases hx : x.2 = i
  · simp [List.filter_map, hx, Function.comp_def]
  · simp [List.filter_map, hx, Function.comp_def]

/-- Peripherals conflict over addresses by which both are compared. -/
theorem Device.exists_of_mem_peripheralConflicts {d : Device} {o : Overlap}
    (ho : o ∈ d.peripheralConflicts) :
    ∃ i j p q, i ≠ j ∧ d.peripherals[i]? = some p ∧ d.peripherals[j]? = some q ∧
      o.first = d.path.child p.name ∧ o.second = d.path.child q.name ∧
      o.firstRange ∈ d.comparedRanges i ∧ o.secondRange ∈ d.comparedRanges j ∧
      o.firstRange.Intersects o.secondRange := by
  obtain ⟨a, ha, b, hb, ⟨hshared, hadmits⟩, rfl⟩ := Extent.exists_of_mem_conflictsAmong ho
  have hcompared (e : Extent)
      (he : e ∈ Extent.inOrder (peripheralExtents d.path d.peripherals)) :
      e.range ∈ d.comparedRanges e.owner := by
    obtain ⟨he, hsome⟩ := Extent.mem_inOrder.1 he
    refine List.mem_map_of_mem (List.mem_filter.2 ⟨he, ?_⟩)
    simpa [AddressRange.isEmpty] using hsome
  obtain ⟨p, hp, -, hppath, -, -⟩ := mem_peripheralExtents_iff.1 (Extent.mem_inOrder.1 ha).1
  obtain ⟨q, hq, -, hqpath, -, -⟩ := mem_peripheralExtents_iff.1 (Extent.mem_inOrder.1 hb).1
  refine ⟨a.owner, b.owner, p, q, ?_, hp, hq, hppath, hqpath, hcompared a ha, hcompared b hb,
    hshared⟩
  intro howner
  exact hadmits (by simp [Extent.admits, howner])

/-- If a device can be placed as long as conflicts are tolerated, it is the first conflict between
its peripherals that is reported otherwise. -/
theorem Device.resolveAddresses_of_peripheralConflicts {tolerant : Bool} {d placed : Device}
    (h : (d.resolveAddresses tolerant).result = .ok placed) {o : Overlap} {os : List Overlap}
    (conflicts : placed.peripheralConflicts = o :: os) :
    (d.resolveAddresses false).result = .error (.overlap o) := by
  obtain rfl := resolveAddresses_eq_ok h
  obtain ⟨_, haddresses, h⟩ := Logged.bind_eq_ok_iff.1 h
  obtain ⟨_, hoffsets, h⟩ := Logged.bind_eq_ok_iff.1 h
  obtain ⟨_, hregisters, h⟩ := Logged.bind_eq_ok_iff.1 h
  obtain ⟨_, hgroups, -⟩ := Logged.bind_eq_ok_iff.1 h
  have hshort : ∀ e ∈ peripheralExtents d.placeAll.path d.placeAll.peripherals, ¬ e.isTooLong :=
    (checkExtents_eq_ok_iff.1 (checkGroups_eq_ok_iff.1 hgroups _ List.mem_cons_self)).1
  have hfirst : (checkGroups false d.placeAll.extentGroups).result = .error (.overlap o) := by
    refine Logged.bind_eq_error_iff.2 (.inl ?_)
    unfold checkExtents
    rw [if_neg (by simpa using hshort)]
    change Extent.conflictsAmong _ = _ at conflicts
    rw [conflicts]
    rfl
  refine Logged.bind_eq_error_iff.2 (.inr ⟨_, haddresses, ?_⟩)
  refine Logged.bind_eq_error_iff.2 (.inr ⟨_, hoffsets, ?_⟩)
  refine Logged.bind_eq_error_iff.2 (.inr ⟨_, hregisters, ?_⟩)
  exact Logged.bind_eq_error_iff.2 (.inl hfirst)

end Draft

/-- The addresses by which a peripheral is compared with the others are those that it shows in the
device, apart from empty ranges, exactly if it spans its members. A conflict between peripherals of
which this holds is one of addresses that both of them show; and if there are conflicts between
peripherals, the first of them is what is reported unless conflicts are tolerated. -/
theorem compared_ranges_shown {tolerant : Bool} {draft placed : Draft.Device} {d : Device}
    (hplaced : (draft.resolveAddresses tolerant).result = .ok placed)
    (hd : (Device.ofDraft placed).result = .ok d) :
    (∀ (i : Nat) p, d.peripherals[i]? = some p →
      (placed.comparedRanges i = p.ranges.filter (!·.isEmpty) ↔ p.SpansMembers)) ∧
    (∀ o ∈ placed.peripheralConflicts, ∃ (i j : Nat) (p q : Peripheral), i ≠ j ∧
      d.peripherals[i]? = some p ∧ d.peripherals[j]? = some q ∧
      o.first = p.path ∧ o.second = q.path ∧
      (p.SpansMembers → q.SpansMembers →
        o.firstRange ∈ p.ranges ∧ o.secondRange ∈ q.ranges ∧
          o.firstRange.Intersects o.secondRange)) ∧
    ∀ o os, placed.peripheralConflicts = o :: os →
      (draft.resolveAddresses false).result = .error (.overlap o) := by
  obtain ⟨ps, hmade, -, rfl⟩ := Device.ofDraft_eq_ok_iff.1 hd
  have hranges (i : Nat) (p : Peripheral) (hp : ps[i]? = some p) :
      placed.comparedRanges i = p.ranges.filter (!·.isEmpty) ↔ p.SpansMembers := by
    obtain ⟨dp, hdp, hmade⟩ := exists_getElem?_left hmade hp
    rw [Draft.Device.comparedRanges_eq hdp]
    exact Peripheral.filter_ranges_ofDraft_iff hmade
  have hpath {dp : Draft.Peripheral} {p : Peripheral}
      (h : Peripheral.ofDraft (placed.path.child dp.name) dp = .ok p) :
      placed.path.child dp.name = p.path := by
    obtain ⟨_, -, h⟩ := bind_eq_ok_iff.1 h
    obtain ⟨_, -, h⟩ := bind_eq_ok_iff.1 h
    obtain ⟨_, -, h⟩ := bind_eq_ok_iff.1 h
    cases h
    rfl
  refine ⟨hranges, fun o ho => ?_, fun o os =>
    Draft.Device.resolveAddresses_of_peripheralConflicts hplaced⟩
  obtain ⟨i, j, dp, dq, hij, hdp, hdq, hfirst, hsecond, hpranges, hqranges, hshared⟩ :=
    Draft.Device.exists_of_mem_peripheralConflicts ho
  obtain ⟨p, hp, hpmade⟩ := exists_getElem?_left hmade.flip hdp
  obtain ⟨q, hq, hqmade⟩ := exists_getElem?_left hmade.flip hdq
  refine ⟨i, j, p, q, hij, hp, hq, hfirst.trans (hpath hpmade), hsecond.trans (hpath hqmade), ?_⟩
  intro hpspans hqspans
  rw [(hranges i p hp).2 hpspans] at hpranges
  rw [(hranges j q hq).2 hqspans] at hqranges
  exact ⟨List.mem_of_mem_filter hpranges, List.mem_of_mem_filter hqranges, hshared⟩

/-! ### A document with a gap -/

open Element in
/-- A peripheral with a register and, behind a gap, a cluster without members. The other peripheral
lies in the gap. -/
def gapRoot : Element :=
  node "device" [leaf "name" "D", leaf "size" "8", leaf "resetValue" "0", node "peripherals" [
    node "peripheral" [leaf "name" "P", leaf "baseAddress" "0", node "registers" [
      node "register" [leaf "name" "R", leaf "addressOffset" "0"],
      node "cluster" [leaf "name" "C", leaf "addressOffset" "8"]]],
    node "peripheral" [leaf "name" "Q", leaf "baseAddress" "4", node "registers" [
      node "register" [leaf "name" "R", leaf "addressOffset" "0"]]]]]

/-- The lines of the document with these elements. -/
def gapLines : List String := [
  "<device><name>D</name><size>8</size><resetValue>0</resetValue><peripherals>",
  "<peripheral><name>P</name><baseAddress>0</baseAddress><registers>",
  "<register><name>R</name><addressOffset>0</addressOffset></register>",
  "<cluster><name>C</name><addressOffset>8</addressOffset></cluster></registers></peripheral>",
  "<peripheral><name>Q</name><baseAddress>4</baseAddress><registers>",
  "<register><name>R</name><addressOffset>0</addressOffset></register></registers></peripheral>",
  "</peripherals></device>"]

set_option maxRecDepth 10000 in
theorem read_gap : (Source.text (String.join gapLines)).read = .ok gapRoot := by
  have hlines : gapLines = List.map String.ofList [_, _, _, _, _, _, _] := rfl
  change Markup.readText (String.join gapLines) = .ok gapRoot
  refine Markup.readText_join hlines ?_ ?_ ?_
  · decide +kernel
  · rfl
  · decide +kernel

/-- The conflict that is reported for the document. -/
def gapOverlap : Overlap :=
  { first := ⟨["D", "P"]⟩, firstRange := ⟨0, 8⟩, second := ⟨["D", "Q"]⟩, secondRange := ⟨4, 5⟩ }

/-- The draft is placed if conflicts are tolerated. In the device, the peripherals occupy one
address each, but the first one is compared by all addresses up to the cluster. -/
theorem exists_placed_gap : ∃ linked placed d p q, Draft.linkedDraft {} gapRoot = .ok linked ∧
    (linked.resolveAddresses true).result = .ok placed ∧ (Device.ofDraft placed).result = .ok d ∧
    (∀ extents ∈ placed.extentGroups, ∀ x ∈ extents, x.range.length < 2 ^ 63) ∧
    placed.comparedRanges 0 = [⟨0, 8⟩] ∧ placed.comparedRanges 1 = [⟨4, 5⟩] ∧
    placed.peripheralConflicts = [gapOverlap] ∧ d.peripherals = [p, q] ∧
    p.path = gapOverlap.first ∧ p.ranges = [⟨0, 1⟩] ∧
    q.path = gapOverlap.second ∧ q.ranges = [⟨4, 5⟩] := by
  have hlinked : (Draft.linkedDraft {} gapRoot).toOption.any fun linked =>
      (linked.resolveAddresses true).result.toOption.any fun placed =>
        (Device.ofDraft placed).result.toOption.any fun d =>
          (∀ extents ∈ placed.extentGroups, ∀ x ∈ extents, x.range.length < 2 ^ 63) ∧
          placed.comparedRanges 0 = [⟨0, 8⟩] ∧ placed.comparedRanges 1 = [⟨4, 5⟩] ∧
          placed.peripheralConflicts = [gapOverlap] ∧
          d.peripherals.map (fun p => (p.path, p.ranges)) =
            [(gapOverlap.first, [⟨0, 1⟩]), (gapOverlap.second, [⟨4, 5⟩])] := by
    cbv
  obtain ⟨linked, hlinked, h⟩ := exists_ok_of_any hlinked
  obtain ⟨placed, hplaced, h⟩ := exists_ok_of_any h
  obtain ⟨d, hd, h⟩ := exists_ok_of_any h
  obtain ⟨hshort, hfirst, hsecond, hconflicts, hperipherals⟩ := of_decide_eq_true h
  obtain ⟨p, ps, hps, hp, hrest⟩ := List.map_eq_cons_iff.1 hperipherals
  obtain ⟨q, rfl, hq⟩ := List.map_eq_singleton_iff.1 hrest
  exact ⟨linked, placed, d, p, q, hlinked, hplaced, hd, hshort, hfirst, hsecond, hconflicts, hps,
    congrArg Prod.fst hp, congrArg Prod.snd hp, congrArg Prod.fst hq, congrArg Prod.snd hq⟩

theorem parse_gap_strict :
    (parse (.text (String.join gapLines)) {}).result = .error (.overlap gapOverlap) := by
  obtain ⟨linked, placed, -, -, -, hlinked, hplaced, -, -, -, -, hconflicts, -⟩ := exists_placed_gap
  rw [Draft.result_parse_eq_linkedDraft read_gap rfl, hlinked, ok_bind]
  refine bind_eq_error_iff.2 (.inl ?_)
  exact Draft.Device.resolveAddresses_of_peripheralConflicts hplaced hconflicts

/-- The first peripheral does not span its members, because of the cluster; the second one does. -/
theorem compared_ranges_shown_gap :
    ∃ (linked placed : Draft.Device) (d : Device) (p q : Peripheral),
    (linked.resolveAddresses true).result = .ok placed ∧ (Device.ofDraft placed).result = .ok d ∧
    d.peripherals = [p, q] ∧ ¬ p.SpansMembers ∧ q.SpansMembers ∧
    (linked.resolveAddresses false).result = .error (.overlap gapOverlap) := by
  obtain ⟨linked, placed, d, p, q, -, hplaced, hd, -, hfirst, hsecond, hconflicts, hperipherals, -,
    hp, -, hq⟩ := exists_placed_gap
  obtain ⟨hspans, -, hreported⟩ := compared_ranges_shown hplaced hd
  refine ⟨linked, placed, d, p, q, hplaced, hd, hperipherals, ?_, ?_, hreported _ _ hconflicts⟩
  · rw [← hspans 0 p (by rw [hperipherals]; rfl), hfirst, hp]
    decide
  · rw [← hspans 1 q (by rw [hperipherals]; rfl), hsecond, hq]
    rfl

/-- The first peripheral is compared by addresses that it does not have in the device, and a strict
run reports a conflict of the two peripherals although they share no address. -/
theorem parse_reports_gap : ∃ linked placed d p q o, Draft.linkedDraft {} gapRoot = .ok linked ∧
    (linked.resolveAddresses true).result = .ok placed ∧ (Device.ofDraft placed).result = .ok d ∧
    d.peripherals = [p, q] ∧ placed.comparedRanges 0 ≠ p.ranges.filter (!·.isEmpty) ∧
    (parse (.text (String.join gapLines)) {}).result = .error (.overlap o) ∧
    o.first = p.path ∧ o.second = q.path ∧ ¬ p.Overlaps q := by
  obtain ⟨linked, placed, d, p, q, hlinked, hplaced, hd, -, hfirst, -, -, hperipherals, hppath, hp,
    hqpath, hq⟩ := exists_placed_gap
  refine ⟨linked, placed, d, p, q, gapOverlap, hlinked, hplaced, hd, hperipherals, ?_,
    parse_gap_strict, hppath.symm, hqpath.symm, ?_⟩
  · rw [hfirst, hp]
    decide
  · rw [Peripheral.Overlaps, hp, hq]
    decide

end RegisterMap
