import Mathlib
import RegisterMap.Proofs.Document
import RegisterMap.Proofs.Group
import RegisterMap.Proofs.Publication

/-!
# Separation of siblings

A device that is parsed without tolerance for conflicts keeps its elements apart: siblings that
share an address, peripherals as well as registers and clusters at any depth, are alternates of each
other.

If no offset is negative, a cluster covers everything inside of it, and the law extends to registers
at any depth: registers that share an address are reached through siblings that are alternates of
each other, right below the innermost element that contains both.
-/

namespace RegisterMap

/-- Each of the two peripherals is named among the alternates of the other. -/
def Peripheral.Linked (p q : Peripheral) : Prop :=
  q.name ∈ p.alternates ∧ p.name ∈ q.alternates

/-- The two peripherals share an address. -/
def Peripheral.Overlaps (p q : Peripheral) : Prop :=
  ∃ r ∈ p.ranges, ∃ s ∈ q.ranges, r.Intersects s

instance (p q : Peripheral) : Decidable (p.Overlaps q) :=
  inferInstanceAs (Decidable (∃ r ∈ p.ranges, ∃ s ∈ q.ranges, r.Intersects s))

/-- Each of the two members is named among the alternates of the other. -/
def Member.Linked (m n : Member) : Prop :=
  n.name ∈ m.alternates ∧ m.name ∈ n.alternates

/-- The two members share an address. -/
def Member.Overlaps (m n : Member) : Prop :=
  m.range.Intersects n.range

instance (m n : Member) : Decidable (m.Overlaps n) :=
  inferInstanceAs (Decidable (m.range.Intersects n.range))

/-- A device is made from a draft that is linked and placed without conflicts. -/
structure Device.MadeFrom (d : Device) (draft : Draft.Device) : Prop where
  linked : draft.Linked
  conflictFree : draft.placeAll.ConflictFree
  shown : d.Shows draft.placeAll

theorem madeFrom_resolve {config : Config} (strict : config.tolerateOverlaps = false)
    {draft : Draft.Device} (unlinked : draft.Every Draft.Header.Unlinked) :
    (resolve config draft).Yields fun d => ∃ linked, d.MadeFrom linked := by
  unfold resolve
  rw [strict]
  refine .bind (Draft.Device.unlinked_resolveDerivations unlinked) fun derived hderived => ?_
  refine .bind (Draft.Device.unlinked_expand hderived) fun expanded hexpanded => ?_
  refine .bind (Draft.Device.unlinked_exclude hexpanded _) fun kept hkept => ?_
  refine .bind (Draft.Device.linked_resolveAlternates hkept) fun linked hlinked => ?_
  refine .bind (linked.conflictFree_resolveAddresses) fun placed hplaced => ?_
  obtain ⟨rfl, hfree⟩ := hplaced
  exact fun d hd => ⟨linked, hlinked, hfree, Device.shows_ofDraft _ d hd⟩

/-- A device that is parsed strictly is made from a linked draft without conflicts. -/
theorem madeFrom_parse {config : Config} (strict : config.tolerateOverlaps = false)
    (source : Source) : (parse source config).Yields fun d => ∃ linked, d.MadeFrom linked := by
  unfold parse
  refine .bind_of_forall fun regions => .bind_of_forall fun root => ?_
  refine .bind (Draft.unlinked_buildDevice root) fun draft hdraft => ?_
  refine .bind (madeFrom_resolve strict hdraft) fun d hd => ?_
  split
  · obtain ⟨linked, hlinked, hfree, hshows⟩ := hd
    intro d' hd'
    exact ⟨linked, hlinked, hfree, Device.shows_withAliases hshows regions d' hd'⟩
  · exact .of_pure hd

namespace Device.MadeFrom

variable {d : Device} {draft : Draft.Device}

theorem peripherals_pairwise (made : d.MadeFrom draft) :
    d.peripherals.Pairwise fun p q => p.Overlaps q → p.Linked q := by
  rw [List.pairwise_iff_getElem]
  intro i j hi hj hij hshared
  obtain ⟨r, hr, s, hs, hshared⟩ := hshared
  obtain ⟨dp, hdp, hp⟩ := exists_getElem?_left made.shown.peripherals
    (List.getElem?_eq_getElem hi)
  obtain ⟨dq, hdq, hq⟩ := exists_getElem?_left made.shown.peripherals
    (List.getElem?_eq_getElem hj)
  obtain ⟨r', hr', hrr'⟩ := hp.ranges r hr
  obtain ⟨s', hs', hss'⟩ := hq.ranges s hs
  obtain ⟨hpq, hqp⟩ := Draft.Device.linked_of_peripherals_intersect made.conflictFree
    made.linked.placeAll made.shown.names hdp hdq (Nat.ne_of_lt hij) hr' hs'
    (hshared.mono hrr' hss')
  rw [← hq.name, ← hp.alternates] at hpq
  rw [← hp.name, ← hq.alternates] at hqp
  exact ⟨hpq, hqp⟩

theorem members_linked (made : d.MadeFrom draft) {p : Peripheral} (hp : p ∈ d.peripherals)
    {is : List Nat} {ns : List Member} (hns : Member.groupAt? p.members is = some ns) {i j : Nat}
    {m n : Member} (hm : ns[i]? = some m) (hn : ns[j]? = some n) (hij : i ≠ j)
    (hshared : m.Overlaps n) : m.Linked n := by
  obtain ⟨dp, hdp, hshown⟩ := exists_mem_left made.shown.peripherals hp
  obtain ⟨hnames, dns, hdns, hall⟩ := hshown.members is ns hns
  have hnames : (dns.map Draft.Member.name).Nodup := by
    rw [map_eq_map_of_forall₂ hall fun _ _ h => h.name.symm]
    exact hnames
  obtain ⟨dm, hdm, hm⟩ := exists_getElem?_left hall hm
  obtain ⟨dn, hdn, hn⟩ := exists_getElem?_left hall hn
  rw [Member.Overlaps, hm.range, hn.range] at hshared
  have hlinked := Draft.Device.linked_of_members_intersect made.conflictFree
    made.linked.placeAll hdp hdns hnames hdm hdn hij hshared
  rw [← hm.name, ← hn.name, ← hm.alternates, ← hn.alternates] at hlinked
  exact hlinked

theorem members_pairwise (made : d.MadeFrom draft) {p : Peripheral} (hp : p ∈ d.peripherals)
    {is : List Nat} {ns : List Member} (hns : Member.groupAt? p.members is = some ns) :
    ns.Pairwise fun m n => m.Overlaps n → m.Linked n := by
  rw [List.pairwise_iff_getElem]
  intro i j hi hj hij hshared
  exact made.members_linked hp hns (List.getElem?_eq_getElem hi) (List.getElem?_eq_getElem hj)
    (Nat.ne_of_lt hij) hshared

end Device.MadeFrom

/-- Siblings that share an address are alternates of each other, in every device that is parsed
without tolerance for conflicts: peripherals, and the registers and clusters directly inside of any
peripheral or cluster. -/
theorem overlapping_siblings_linked {source : Source} {config : Config} {d : Device}
    (strict : config.tolerateOverlaps = false) (h : (parse source config).result = .ok d) :
    d.peripherals.Pairwise (fun p q => p.Overlaps q → p.Linked q) ∧
      ∀ p ∈ d.peripherals, ∀ is ns, Member.groupAt? p.members is = some ns →
        ns.Pairwise fun m n => m.Overlaps n → m.Linked n := by
  obtain ⟨draft, made⟩ := madeFrom_parse strict source d h
  exact ⟨made.peripherals_pairwise, fun p hp _ _ hns => made.members_pairwise hp hns⟩

/-! ### A document with two views -/

open Element in
/-- A peripheral with two views of a register, and another view of the peripheral itself. -/
def twoViewsRoot : Element :=
  node "device" [leaf "name" "D", leaf "size" "8", leaf "resetValue" "0", node "peripherals" [
    node "peripheral" [leaf "name" "P", leaf "baseAddress" "0", node "registers" [
      node "cluster" [leaf "name" "A", leaf "addressOffset" "0",
        node "register" [leaf "name" "R", leaf "addressOffset" "0"]],
      node "cluster" [leaf "name" "B", leaf "alternateCluster" "A", leaf "addressOffset" "0",
        node "register" [leaf "name" "R", leaf "addressOffset" "0"]]]],
    node "peripheral" [leaf "name" "Q", leaf "alternatePeripheral" "P", leaf "baseAddress" "0",
      node "addressBlock" [leaf "offset" "0", leaf "size" "4"]]]]

/-- The lines of the document with these elements. -/
def twoViewsLines : List String := [
  "<device><name>D</name><size>8</size><resetValue>0</resetValue><peripherals>",
  "<peripheral><name>P</name><baseAddress>0</baseAddress><registers>",
  "<cluster><name>A</name><addressOffset>0</addressOffset>",
  "<register><name>R</name><addressOffset>0</addressOffset></register></cluster>",
  "<cluster><name>B</name><alternateCluster>A</alternateCluster><addressOffset>0</addressOffset>",
  "<register><name>R</name><addressOffset>0</addressOffset></register></cluster>",
  "</registers></peripheral>",
  "<peripheral><name>Q</name><alternatePeripheral>P</alternatePeripheral>",
  "<baseAddress>0</baseAddress>",
  "<addressBlock><offset>0</offset><size>4</size></addressBlock></peripheral>",
  "</peripherals></device>"]

set_option maxRecDepth 10000 in
theorem read_twoViews : (Source.text (String.join twoViewsLines)).read = .ok twoViewsRoot := by
  have hlines : twoViewsLines = List.map String.ofList [_, _, _, _, _, _, _, _, _, _, _] := rfl
  change Markup.readText (String.join twoViewsLines) = .ok twoViewsRoot
  refine Markup.readText_join hlines ?_ ?_ ?_
  · decide +kernel
  · rfl
  · decide +kernel

/-- The device has two peripherals that share an address, and in the first of them two clusters with
one register each that share an address, at offsets that are not negative. -/
def Device.hasTwoViews (d : Device) : Bool :=
  match d.peripherals with
  | [p, q] =>
    match p.members, q.members with
    | [.cluster a [.register r], .cluster b [.register s]], [] =>
      p.Overlaps q && a.range.Intersects b.range && r.range.Intersects s.range &&
        (0 ≤ a.offset && 0 ≤ b.offset && 0 ≤ r.offset && 0 ≤ s.offset)
    | _, _ => false
  | _ => false

theorem Device.exists_of_hasTwoViews {d : Device} (h : d.hasTwoViews) :
    ∃ p q a b r s, d.peripherals = [p, q] ∧ q.members = [] ∧
      p.members = [.cluster a [.register r], .cluster b [.register s]] ∧
      p.Overlaps q ∧ a.range.Intersects b.range ∧ r.range.Intersects s.range ∧
      0 ≤ a.offset ∧ 0 ≤ b.offset ∧ 0 ≤ r.offset ∧ 0 ≤ s.offset := by
  unfold hasTwoViews at h
  split at h
  · next p q hperipherals =>
    split at h
    · next a r b s hmembers hempty =>
      simp only [Bool.and_eq_true, decide_eq_true_eq] at h
      obtain ⟨⟨⟨hpq, hab⟩, hrs⟩, ⟨⟨ha, hb⟩, hr⟩, hs⟩ := h
      exact ⟨p, q, a, b, r, s, hperipherals, hempty, hmembers, hpq, hab, hrs, ha, hb, hr, hs⟩
    · cases h
  · cases h

/-- The document is parsed to a device with two views, in which `Q` is the one that refers to the
other. -/
theorem parse_twoViews :
    ∃ d, (parse (.text (String.join twoViewsLines)) {}).result = .ok d ∧ d.hasTwoViews ∧
      d.peripherals.map (fun p => (p.name, p.alternate)) = [("P", none), ("Q", some "P")] := by
  have hbuilt : (Draft.buildDevice twoViewsRoot >>= resolve {}).result.toOption.any fun d =>
      d.hasTwoViews &&
        d.peripherals.map (fun p => (p.name, p.alternate)) == [("P", none), ("Q", some "P")] := by
    cbv
  obtain ⟨d, hd, h⟩ := exists_ok_of_any hbuilt
  rw [Bool.and_eq_true, beq_iff_eq] at h
  exact ⟨d, (result_parse read_twoViews rfl).trans hd, h⟩

theorem overlapping_siblings_linked_twoViews :
    ∃ d p q a b, (parse (.text (String.join twoViewsLines)) {}).result = .ok d ∧
      d.peripherals = [p, q] ∧ p.Overlaps q ∧ p.Linked q ∧
      p.members = [a, b] ∧ a.Overlaps b ∧ a.Linked b := by
  obtain ⟨d, hd, hviews, -⟩ := parse_twoViews
  obtain ⟨p, q, a, b, r, s, hperipherals, -, hmembers, hpq, hab, -⟩ :=
    Device.exists_of_hasTwoViews hviews
  obtain ⟨hfirst, hsecond⟩ := overlapping_siblings_linked rfl hd
  have hinside := hsecond p (by simp [hperipherals]) [] _ rfl
  rw [hperipherals, List.pairwise_pair] at hfirst
  rw [hmembers, List.pairwise_pair] at hinside
  exact ⟨d, p, q, _, _, hd, hperipherals, hpq, hfirst hpq, hmembers, hab, hinside hab⟩

/-! ### Registers at any depth -/

/-- At all depths below some members, each member covers what is directly inside of it, and siblings
that share an address are alternates of each other. -/
structure Member.Separated (ms : List Member) : Prop where
  covering : ∀ is m, memberAt? ms is = some m → ∀ n ∈ m.members, n.range.Within m.range
  linked : ∀ is ns, groupAt? ms is = some ns → ∀ (i j : Nat) (m n : Member), ns[i]? = some m →
    ns[j]? = some n → i ≠ j → m.Overlaps n → m.Linked n

namespace Member.Separated

variable {ms : List Member}

theorem inside (h : Separated ms) {i : Nat} {m : Member} (hm : ms[i]? = some m) :
    Separated m.members where
  covering is n hn := h.covering (i :: is) n (memberAt?_cons_eq_some_iff.2 ⟨m, hm, .inr hn⟩)
  linked is ns hns := h.linked (i :: is) ns (groupAt?_cons_eq_some_iff.2 ⟨m, hm, hns⟩)

/-- A member covers everything that is reached through it. -/
theorem within (h : Separated ms) {i : Nat} {m : Member} (hm : ms[i]? = some m) {is : List Nat}
    {n : Member} (hn : memberAt? ms (i :: is) = some n) : n.range.Within m.range := by
  induction is generalizing ms i m with
  | nil =>
      obtain rfl : m = n := Option.some.inj (hm.symm.trans hn)
      exact .refl _
  | cons j is ih =>
      obtain ⟨m', hm', hn⟩ := memberAt?_cons_eq_some_iff.1 hn
      obtain rfl : m = m' := Option.some.inj (hm.symm.trans hm')
      have hn := hn.resolve_left fun h => List.cons_ne_nil _ _ h.1
      obtain ⟨m₁, hm₁, -⟩ := memberAt?_cons_eq_some_iff.1 hn
      have hfirst : m₁.range.Within m.range := h.covering [i] m hm m₁ (List.mem_of_getElem? hm₁)
      exact (ih (h.inside hm) hm₁ hn).trans hfirst

/-- Registers that share an address are reached through siblings that are alternates of each
other. -/
theorem exists_linked_branches (h : Separated ms) {k l : List Nat} {r s : Register}
    (hr : memberAt? ms k = some (.register r)) (hs : memberAt? ms l = some (.register s))
    (hkl : k ≠ l) (shared : r.range.Intersects s.range) :
    ∃ common i j m n, i ≠ j ∧ common ++ [i] <+: k ∧ common ++ [j] <+: l ∧
      memberAt? ms (common ++ [i]) = some m ∧ memberAt? ms (common ++ [j]) = some n ∧
      m.Linked n := by
  induction k generalizing ms l with
  | nil => cases hr
  | cons i k ih =>
      cases l with
      | nil => cases hs
      | cons j l =>
          obtain ⟨m, hm, hbelow⟩ := memberAt?_cons_eq_some_iff.1 hr
          obtain ⟨n, hn, hbelow'⟩ := memberAt?_cons_eq_some_iff.1 hs
          by_cases hij : i = j
          · -- The ways part further down, since nothing is inside of a register.
            subst hij
            obtain rfl : m = n := Option.some.inj (hm.symm.trans hn)
            have hkl : k ≠ l := fun heq => hkl (by rw [heq])
            rcases hbelow with ⟨rfl, rfl⟩ | hbelow
            · rcases hbelow' with ⟨rfl, -⟩ | hbelow'
              · exact absurd rfl hkl
              · simp [members] at hbelow'
            · rcases hbelow' with ⟨rfl, rfl⟩ | hbelow'
              · simp [members] at hbelow
              · obtain ⟨common, a, b, x, y, hab, hk, hl, hx, hy, hlinked⟩ :=
                  ih (h.inside hm) hbelow hbelow' hkl
                refine ⟨i :: common, a, b, x, y, hab, ?_, ?_, ?_, ?_, hlinked⟩
                · exact (List.prefix_cons_inj i).2 hk
                · exact (List.prefix_cons_inj i).2 hl
                · exact memberAt?_cons_eq_some_iff.2 ⟨m, hm, .inr hx⟩
                · exact memberAt?_cons_eq_some_iff.2 ⟨m, hm, .inr hy⟩
          · -- The ways part here, and the siblings cover what they lead to.
            have hoverlap : m.Overlaps n := shared.mono (h.within hm hr) (h.within hn hs)
            have hlinked : m.Linked n := h.linked [] ms rfl i j m n hm hn hij hoverlap
            exact ⟨[], i, j, m, n, hij, List.prefix_append [i] k, List.prefix_append [j] l, hm, hn,
              hlinked⟩

end Member.Separated

/-- If no offset is negative, every member of a device made from a placed draft covers what is
directly inside of it. -/
theorem Device.MadeFrom.covering {d : Device} {draft : Draft.Device} (made : d.MadeFrom draft)
    {p : Peripheral} (hp : p ∈ d.peripherals)
    (nonneg : ∀ is m, Member.memberAt? p.members is = some m → 0 ≤ m.offset) {is : List Nat}
    {m : Member} (hm : Member.memberAt? p.members is = some m) {n : Member} (hn : n ∈ m.members) :
    n.range.Within m.range := by
  obtain ⟨js, i, ns, rfl, hns, hm⟩ := Member.exists_group_of_memberAt? hm
  obtain ⟨dp, hdp, hshown⟩ := exists_mem_left made.shown.peripherals hp
  obtain ⟨dns, dm, hdns, hdm, hmshown, hinside⟩ := hshown.exists_member hns hm
  obtain ⟨dn, hdn, hnshown⟩ := exists_mem_left hinside hn
  have hoffset : 0 ≤ n.offset := by
    obtain ⟨k, hk⟩ := List.mem_iff_getElem?.1 hn
    refine nonneg (js ++ [i] ++ [k]) n (Member.memberAt?_append_singleton_eq_some_iff.2 ?_)
    exact ⟨_, Member.groupAt?_append_singleton hns hm, hk⟩
  -- The draft of the member is placed.
  obtain ⟨dq, -, rfl⟩ := List.mem_map.1 hdp
  rw [Draft.Peripheral.memberList_placeAll] at hdns
  obtain ⟨base, dns₀, -, rfl⟩ := Draft.Member.exists_group_of_placeAt hdns
  rw [List.getElem?_map] at hdm
  obtain ⟨dm₀, -, rfl⟩ := Option.map_eq_some_iff.1 hdm
  rw [hnshown.range, hmshown.range]
  cases dm₀ with
  | register r => cases hdn
  | cluster c ms =>
      exact Draft.Member.range_within_of_mem_placeAt rfl hdn hnshown.offset hoffset

/-- If no offset is negative, registers of one peripheral that share an address are reached through
siblings that are alternates of each other: the two members that lead to them inside of the
innermost element that contains both. -/
theorem overlapping_registers_diverge_at_linked {source : Source} {config : Config} {d : Device}
    (strict : config.tolerateOverlaps = false) (h : (parse source config).result = .ok d)
    (nonneg : ∀ p ∈ d.peripherals, ∀ is m, Member.memberAt? p.members is = some m → 0 ≤ m.offset)
    {p : Peripheral} (hp : p ∈ d.peripherals) {k l : List Nat} {r s : Register}
    (hr : Member.memberAt? p.members k = some (.register r))
    (hs : Member.memberAt? p.members l = some (.register s)) (hkl : k ≠ l)
    (shared : r.range.Intersects s.range) :
    ∃ common i j m n, i ≠ j ∧ common ++ [i] <+: k ∧ common ++ [j] <+: l ∧
      Member.memberAt? p.members (common ++ [i]) = some m ∧
      Member.memberAt? p.members (common ++ [j]) = some n ∧ m.Linked n := by
  obtain ⟨draft, made⟩ := madeFrom_parse strict source d h
  have separated : Member.Separated p.members :=
    { covering := fun is m hm n hn => made.covering hp (nonneg p hp) hm hn
      linked := fun is ns hns i j m n hm hn => made.members_linked hp hns hm hn }
  exact separated.exists_linked_branches hr hs hkl shared

theorem overlapping_registers_diverge_at_linked_twoViews :
    ∃ d p r s, (parse (.text (String.join twoViewsLines)) {}).result = .ok d ∧
      p ∈ d.peripherals ∧ Member.memberAt? p.members [0, 0] = some (.register r) ∧
      Member.memberAt? p.members [1, 0] = some (.register s) ∧ r.range.Intersects s.range ∧
      ∃ common i j m n, i ≠ j ∧ common ++ [i] <+: [0, 0] ∧ common ++ [j] <+: [1, 0] ∧
        Member.memberAt? p.members (common ++ [i]) = some m ∧
        Member.memberAt? p.members (common ++ [j]) = some n ∧ m.Linked n := by
  obtain ⟨d, hd, hviews, -⟩ := parse_twoViews
  obtain ⟨p, q, a, b, r, s, hperipherals, hempty, hmembers, -, -, hrs, ha, hb, hr, hs⟩ :=
    Device.exists_of_hasTwoViews hviews
  have hp : p ∈ d.peripherals := by simp [hperipherals]
  have nonneg : ∀ p ∈ d.peripherals, ∀ is m, Member.memberAt? p.members is = some m →
      0 ≤ m.offset := by
    rw [hperipherals, List.forall_mem_cons, List.forall_mem_singleton, hmembers, hempty]
    constructor
    · rw [Member.forall_memberAt?_iff, List.forall_mem_cons, List.forall_mem_singleton]
      refine ⟨⟨ha, ?_⟩, hb, ?_⟩
      · rw [Member.forall_memberAt?_iff]
        simp [Member.members, Member.offset, hr]
      · rw [Member.forall_memberAt?_iff]
        simp [Member.members, Member.offset, hs]
    · simp
  have hr : Member.memberAt? p.members [0, 0] = some (.register r) := by rw [hmembers]; rfl
  have hs : Member.memberAt? p.members [1, 0] = some (.register s) := by rw [hmembers]; rfl
  exact ⟨d, p, r, s, hd, hp, hr, hs, hrs,
    overlapping_registers_diverge_at_linked rfl hd nonneg hp hr hs (by decide) hrs⟩

end RegisterMap
