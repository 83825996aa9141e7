import RegisterMap.Proofs.Copies
import RegisterMap.Proofs.Instances
import RegisterMap.Proofs.Placement
import RegisterMap.Proofs.Sites

/-!
# Conditions on all elements of a draft

A peripheral is much like a cluster of its device, with the base address as its offset
(`Peripheral.asMember`). Seen in this way a draft is a list of members (`Device.elements`), and each
stage does to this list what it does to the members of any peripheral or cluster.

`Member.EachAll` says that a condition holds for some members and for everything inside of them. A
condition may look at all that is inside of a member, but what matters is only what a stage does to
one member at a time. Linking and placing keep the shape of a draft and most of what its elements
say of themselves, so they are taken together (`Member.AlikeAll`).
-/

namespace RegisterMap.Draft

/-- The peripheral as a member of the device, at an offset that is its base address. -/
def Peripheral.asMember (p : Peripheral) : Member :=
  .cluster { toHeader := p.toHeader, offset := p.baseAddress } p.memberList

/-- The peripherals of the device as its members. -/
def Device.elements (d : Device) : List Member :=
  d.peripherals.map Peripheral.asMember

namespace Member

/-- The fields of a register; a cluster has none. -/
def fieldList : Member → List Field
  | .register r => r.fieldList
  | .cluster _ _ => []

mutual

/-- The condition holds for the member and for everything inside of it. -/
def Each (P : Member → Prop) : Member → Prop
  | .register r => P (.register r)
  | .cluster c ms => P (.cluster c ms) ∧ EachAll P ms

/-- The condition holds for the members and for everything inside of them. -/
def EachAll (P : Member → Prop) : List Member → Prop
  | [] => True
  | m :: ms => Each P m ∧ EachAll P ms

end

variable {P Q : Member → Prop}

theorem eachAll_iff {ms : List Member} : EachAll P ms ↔ ∀ m ∈ ms, m.Each P := by
  induction ms with
  | nil => simp [EachAll]
  | cons m ms ih => rw [EachAll, ih, List.forall_mem_cons]

theorem mem_expandedAll_iff {ms : List Member} {n : Member} :
    n ∈ expandedAll ms ↔ ∃ m ∈ ms, ∃ i ∈ instances m, n = place m.expanded i := by
  simp only [expandedAll_eq_flatMap, List.mem_flatMap, List.mem_map, eq_comm]

theorem each_iff {m : Member} : m.Each P ↔ P m ∧ EachAll P m.members := by
  cases m with
  | register r => simp [Each, members, EachAll]
  | cluster c ms => rfl

theorem EachAll.own {ms : List Member} (h : EachAll P ms) : ∀ m ∈ ms, P m :=
  fun m hm => (each_iff.1 (eachAll_iff.1 h m hm)).1

mutual

theorem each_iff_forall_levels (path : NodePath) :
    ∀ m : Member, m.Each P ↔ P m ∧ ∀ e ∈ (m.levels path).flatten, P e.2
  | .register r => by simp [Each, levels]
  | .cluster c ms => by rw [Each, levels, eachAll_iff_forall_levels path ms]

/-- What holds for some members and for everything inside of them holds on all levels. -/
theorem eachAll_iff_forall_levels (path : NodePath) :
    ∀ ms : List Member, EachAll P ms ↔ ∀ e ∈ (levelsAll path ms).flatten, P e.2
  | [] => by simp [EachAll, levelsAll]
  | m :: ms => by
      rw [EachAll, each_iff_forall_levels (path.child m.name) m, eachAll_iff_forall_levels path ms,
        levelsAll]
      simp only [mem_flatten_joinLevels, List.flatten_cons, List.singleton_append, List.mem_cons,
        or_imp, forall_and, forall_eq]

end

theorem EachAll.and {ms : List Member} (hP : EachAll P ms) (hQ : EachAll Q ms) :
    EachAll (fun m => P m ∧ Q m) ms := by
  rw [eachAll_iff_forall_levels default] at *
  exact fun e he => ⟨hP e he, hQ e he⟩

theorem EachAll.imp {ms : List Member} (hP : EachAll P ms) (h : ∀ m, P m → Q m) :
    EachAll Q ms := by
  rw [eachAll_iff_forall_levels default] at *
  exact fun e he => h e.2 (hP e he)

/-- What holds for some members and for everything inside of them holds for the registers. -/
theorem EachAll.register {s : Scope} (h : EachAll P s.members) {is : List Nat} {t : Site}
    (ht : s.site? is = some t) : P (.register t.register) := by
  induction is generalizing s with
  | nil => cases ht
  | cons i is ih =>
      rcases Scope.site?_cons_eq_some_iff.1 ht with ⟨rfl, r, hr, rfl⟩ | ⟨c, ms, hc, ht⟩
      · exact eachAll_iff.1 h _ (List.mem_of_getElem? hr)
      · exact ih (s := ⟨s.position ++ [i], s.path.child c.name, ms⟩)
          (eachAll_iff.1 h _ (List.mem_of_getElem? hc)).2 ht

/-! ### One member at a time -/

mutual

theorem each_withDefaults (keep : ∀ (m : Member) defaults, P m → P (m.withDefaults defaults))
    (defaults : RegisterProperties) : ∀ m : Member, m.Each P → (m.withDefaults defaults).Each P
  | .register _, h => keep _ _ h
  | .cluster _ ms, h => ⟨keep _ _ h.1, eachAll_withDefaultsAll keep _ ms h.2⟩

theorem eachAll_withDefaultsAll (keep : ∀ (m : Member) defaults, P m → P (m.withDefaults defaults))
    (defaults : RegisterProperties) :
    ∀ ms : List Member, EachAll P ms → EachAll P (withDefaultsAll defaults ms)
  | [], _ => trivial
  | m :: ms, h =>
      ⟨each_withDefaults keep defaults m h.1, eachAll_withDefaultsAll keep defaults ms h.2⟩

end

theorem offset_place (m : Member) (i : Instance) :
    (place m (some i)).offset = m.offset.map (· + i.shift) := by
  cases m <;> rfl

/-- A member keeps what is inside of it when it is placed. -/
theorem each_place (keep : ∀ (m : Member) i, P m → P (place m (some i))) {m : Member}
    (h : m.Each P) (i : Option Instance) : (place m i).Each P := by
  cases i with
  | none => exact h
  | some i =>
      cases m with
      | register r => exact keep _ _ h
      | cluster c ms => exact ⟨keep _ _ h.1, h.2⟩

mutual

theorem each_expanded (inside : ∀ m, P m → Q m.expanded)
    (keep : ∀ (m : Member) i, Q m → Q (place m (some i))) :
    ∀ m : Member, m.Each P → m.expanded.Each Q
  | .register r, h => inside (.register r) h
  | .cluster c ms, h => ⟨inside (.cluster c ms) h.1, eachAll_expandedAll inside keep ms h.2⟩

theorem eachAll_expandedAll (inside : ∀ m, P m → Q m.expanded)
    (keep : ∀ (m : Member) i, Q m → Q (place m (some i))) :
    ∀ ms : List Member, EachAll P ms → EachAll Q (expandedAll ms)
  | [], _ => trivial
  | m :: ms, h => by
      refine eachAll_iff.2 (List.forall_mem_append.2 ⟨List.forall_mem_map.2 fun i _ => ?_, ?_⟩)
      · exact each_place keep (each_expanded inside keep m h.1) i
      · exact eachAll_iff.1 (eachAll_expandedAll inside keep ms h.2)

end

/-! ### Members of one shape -/

mutual

/-- The members have the same shape, and any two at the same place in them are related. -/
def Alike (R : Member → Member → Prop) : Member → Member → Prop
  | .register r, .register r' => R (.register r) (.register r')
  | .cluster c ms, .cluster c' ms' => R (.cluster c ms) (.cluster c' ms') ∧ AlikeAll R ms ms'
  | .register _, .cluster _ _ => False
  | .cluster _ _, .register _ => False

/-- The members have the same shape one by one, and any two that stand at the same place in them are
related. -/
def AlikeAll (R : Member → Member → Prop) : List Member → List Member → Prop
  | [], [] => True
  | m :: ms, m' :: ms' => Alike R m m' ∧ AlikeAll R ms ms'
  | [], _ :: _ => False
  | _ :: _, [] => False

end

variable {R : Member → Member → Prop}

theorem alikeAll_iff {ms ms' : List Member} :
    AlikeAll R ms ms' ↔ List.Forall₂ (Alike R) ms ms' := by
  induction ms generalizing ms' with
  | nil => cases ms' <;> simp [AlikeAll]
  | cons m ms ih => cases ms' <;> simp [AlikeAll, ih]

theorem Alike.root {m m' : Member} (h : m.Alike R m') : R m m' := by
  cases m with
  | register r =>
      cases m' with
      | register r' => exact h
      | cluster c' ms' => exact h.elim
  | cluster c ms =>
      cases m' with
      | register r' => exact h.elim
      | cluster c' ms' => exact h.1

theorem AlikeAll.roots {ms ms' : List Member} (h : AlikeAll R ms ms') : List.Forall₂ R ms ms' :=
  (alikeAll_iff.1 h).imp fun _ _ => Alike.root

mutual

theorem Each.of_alike (keep : ∀ m m' : Member, R m m' → List.Forall₂ R m.members m'.members →
      P m → Q m') : ∀ (m : Member) {m' : Member}, m.Alike R m' → m.Each P → m'.Each Q
  | .register r, m', h, hP => by
      cases m' with
      | register r' => exact keep _ _ h .nil hP
      | cluster c' ms' => exact h.elim
  | .cluster c ms, m', h, hP => by
      cases m' with
      | register r' => exact h.elim
      | cluster c' ms' => exact ⟨keep _ _ h.1 h.2.roots hP.1, EachAll.of_alike keep ms h.2 hP.2⟩

/-- A condition on members turns into another one on members of the same shape, if it does so one
member at a time. -/
theorem EachAll.of_alike (keep : ∀ m m' : Member, R m m' → List.Forall₂ R m.members m'.members →
      P m → Q m') :
    ∀ (ms : List Member) {ms' : List Member}, AlikeAll R ms ms' → EachAll P ms → EachAll Q ms'
  | [], ms', h, _ => by
      cases ms' with
      | nil => trivial
      | cons => exact h.elim
  | m :: ms, ms', h, hP => by
      cases ms' with
      | nil => exact h.elim
      | cons m' ms' => exact ⟨Each.of_alike keep m h.1 hP.1, EachAll.of_alike keep ms h.2 hP.2⟩

end

/-! ### Replaced registers -/

section

variable {f : List Nat → Register → Register}

mutual

theorem alike_mapRegisters (clusters : ∀ c ms ms', R (.cluster c ms) (.cluster c ms'))
    (position : List Nat) (path : NodePath) : ∀ m : Member,
      (∀ r, m = .register r → R (.register r) (.register (f position r))) →
      (∀ is t, Scope.site? ⟨position, path, m.members⟩ is = some t →
        R (.register t.register) (.register (f t.position t.register))) →
      m.Alike R (mapRegisters f position m)
  | .register r, own, _ => own r rfl
  | .cluster c ms, _, below =>
      ⟨clusters c ms _, alikeAll_mapRegistersAll_from clusters ⟨position, path, ms⟩ 0 ms
        (fun i m hm => by rwa [Nat.zero_add]) below⟩

theorem alikeAll_mapRegistersAll_from
    (clusters : ∀ c ms ms', R (.cluster c ms) (.cluster c ms')) (s : Scope) (k : Nat) :
    ∀ ms : List Member, (∀ (i : Nat) m, ms[i]? = some m → s.members[k + i]? = some m) →
      (∀ is t, s.site? is = some t →
        R (.register t.register) (.register (f t.position t.register))) →
      AlikeAll R ms (mapRegistersAll f s.position k ms)
  | [], _, _ => trivial
  | m :: ms, part, below => by
      have hm : s.members[k]? = some m := part 0 m rfl
      refine ⟨alike_mapRegisters clusters (s.position ++ [k]) (s.path.child m.name) m ?_ ?_,
        alikeAll_mapRegistersAll_from clusters s (k + 1) ms (fun i n hn => ?_) below⟩
      · rintro r rfl
        exact below [k] _ (Scope.site?_register hm)
      · intro is t ht
        cases m with
        | register r => cases is <;> cases ht
        | cluster c ns => exact below (k :: is) t ((Scope.site?_cluster hm).trans ht)
      · rw [Nat.add_right_comm, Nat.add_assoc]
        exact part (i + 1) n hn

end

end

/-- The second member is the first one with its registers replaced in a certain way. -/
def Replaces (S : Register → Register → Prop) : Member → Member → Prop
  | .register r, .register r' => S r r'
  | .cluster c _, .cluster c' _ => c' = c
  | .register _, .cluster _ _ => False
  | .cluster _ _, .register _ => False

/-! ### Members that differ in addresses and alternates -/

/-- The second member says the same of itself as the first one, apart from its address and its
alternates. -/
structure Resembles (m m' : Member) : Prop where
  kind : m'.kind = m.kind
  header : ∃ alternates address, m'.header = { m.header with alternates, address }
  offset : m'.offset = m.offset
  fieldList : m'.fieldList = m.fieldList

/-- Resembling members have everything in common that does not depend on addresses and
alternates. -/
theorem Resembles.own {α : Type} {m m' : Member} (h : m.Resembles m') (get : Header → α)
    (same : ∀ (h : Header) alternates address, get { h with alternates, address } = get h) :
    get m'.header = get m.header := by
  obtain ⟨alternates, address, hheader⟩ := h.header
  rw [hheader, same]

theorem Resembles.name {m m' : Member} (h : m.Resembles m') : m'.name = m.name :=
  h.own (·.name) fun _ _ _ => rfl

mutual

theorem alike_placeAt (base : Int) : ∀ m : Member, m.Alike Resembles (placeAt base m)
  | .register _ => ⟨rfl, ⟨_, _, rfl⟩, rfl, rfl⟩
  | .cluster _ ms => ⟨⟨rfl, ⟨_, _, rfl⟩, rfl, rfl⟩, alikeAll_placeAllAt _ ms⟩

theorem alikeAll_placeAllAt (base : Int) :
    ∀ ms : List Member, AlikeAll Resembles ms (placeAllAt base ms)
  | [] => trivial
  | m :: ms => ⟨alike_placeAt base m, alikeAll_placeAllAt base ms⟩

end

end Member

/-! ### Linking -/

theorem linkSibling_eq (siblings : List Sibling) (sets : List (List String)) (s : Sibling)
    (i : Nat) : ∃ alternates, linkSibling siblings sets s i = { s.header with alternates } := by
  unfold linkSibling
  split
  · dsimp only
    split
    · exact ⟨_, rfl⟩
    · exact ⟨_, rfl⟩
  · exact ⟨_, rfl⟩

/-- Linking siblings changes nothing but their alternates. -/
theorem forall₂_linkSiblings {path : NodePath} {siblings : List Sibling} {headers : List Header}
    (h : linkSiblings path siblings = .ok headers) :
    List.Forall₂ (fun s h => ∃ alternates, h = { s.header with alternates }) siblings headers := by
  obtain ⟨pairs, rfl⟩ := linkSiblings_eq_ok h
  have hfst : siblings.zipIdx.map (·.1) = siblings := List.zipIdx_map_fst 0 siblings
  conv_lhs => rw [← hfst]
  rw [List.forall₂_map_left_iff, List.forall₂_map_right_iff, List.forall₂_same]
  exact fun e _ => linkSibling_eq _ _ e.1 e.2

namespace Member

theorem Alike.withHeader {m m' : Member} (h : m.Alike Resembles m') {header : Header}
    (same : ∃ alternates, header = { m.header with alternates }) :
    m.Alike Resembles (m'.withHeader header) := by
  obtain ⟨alternates, rfl⟩ := same
  have hresembles : m.Resembles (m'.withHeader { m.header with alternates }) := by
    refine ⟨?_, ⟨alternates, m.header.address, header_withHeader _ m'⟩, ?_, ?_⟩
    · rw [← h.root.kind]
      cases m' <;> rfl
    · rw [← h.root.offset]
      cases m' <;> rfl
    · rw [← h.root.fieldList]
      cases m' <;> rfl
  cases m with
  | register r =>
      cases m' with
      | register r' => exact hresembles
      | cluster c' ms' => exact h.elim
  | cluster c ms =>
      cases m' with
      | register r' => exact h.elim
      | cluster c' ms' => exact ⟨hresembles, h.2⟩

theorem alikeAll_zipWith_withHeader {path : NodePath} {ms inside : List Member}
    {headers : List Header} (hheaders : linkSiblings path (ms.map asSibling) = .ok headers)
    (hinside : AlikeAll Resembles ms inside) :
    AlikeAll Resembles ms (headers.zipWith Member.withHeader inside) := by
  have hlinked := forall₂_linkSiblings hheaders
  rw [List.forall₂_map_left_iff] at hlinked
  exact alikeAll_iff.2 (forall₂_zipWith hlinked (alikeAll_iff.1 hinside) fun _ _ _ same h =>
    h.withHeader same)

mutual

theorem alike_linkInside (path : NodePath) :
    ∀ {m m' : Member}, m.linkInside path = .ok m' → m.Alike Resembles m'
  | .register _, _, h => by
      cases h
      exact ⟨rfl, ⟨_, _, rfl⟩, rfl, rfl⟩
  | .cluster c ms, _, h => by
      unfold linkInside at h
      obtain ⟨headers, hheaders, h⟩ := bind_eq_ok_iff.1 h
      obtain ⟨inside, hinside, h⟩ := bind_eq_ok_iff.1 h
      cases h
      refine ⟨⟨rfl, ⟨_, _, rfl⟩, rfl, rfl⟩, ?_⟩
      exact alikeAll_zipWith_withHeader hheaders (alikeAll_linkInsideAll path hinside)

theorem alikeAll_linkInsideAll (path : NodePath) :
    ∀ {ms ms' : List Member}, linkInsideAll path ms = .ok ms' → AlikeAll Resembles ms ms'
  | [], _, h => by
      cases h
      trivial
  | m :: ms, _, h => by
      unfold linkInsideAll at h
      obtain ⟨rest, hrest, h⟩ := bind_eq_ok_iff.1 h
      obtain ⟨m', hm', h⟩ := bind_eq_ok_iff.1 h
      cases h
      exact ⟨alike_linkInside _ hm', alikeAll_linkInsideAll path hrest⟩

end

theorem alikeAll_linkAll {path : NodePath} {ms ms' : List Member}
    (h : linkAll path ms = .ok ms') : AlikeAll Resembles ms ms' := by
  obtain ⟨headers, hheaders, h⟩ := bind_eq_ok_iff.1 h
  obtain ⟨inside, hinside, h⟩ := bind_eq_ok_iff.1 h
  cases h
  exact alikeAll_zipWith_withHeader hheaders (alikeAll_linkInsideAll path hinside)

end Member

/-! ### Devices -/

theorem Peripheral.asMember_withDefaults (p : Peripheral) (defaults : RegisterProperties) :
    (p.withDefaults defaults).asMember = p.asMember.withDefaults defaults := by
  unfold asMember memberList withDefaults
  cases p.members <;> rfl

theorem Peripheral.asMember_place (p : Peripheral) (i : Option Instance) :
    (place p i).asMember = place p.asMember i := by
  cases i <;> rfl

theorem Peripheral.asMember_expanded (p : Peripheral) :
    p.expanded.asMember = p.asMember.expanded := by
  unfold asMember memberList expanded
  cases p.members <;> rfl

theorem Peripheral.instances_asMember (p : Peripheral) : instances p.asMember = instances p :=
  rfl

/-- The peripherals in the place of a peripheral are the members in its place. -/
theorem Peripheral.map_asMember_expansion (p : Peripheral) :
    p.expansion.map asMember = (instances p).map (place p.asMember.expanded) := by
  unfold expansion replacements
  rw [List.map_map, List.map_map]
  refine List.map_congr_left fun i _ => ?_
  simp only [Function.comp_apply, asMember_expanded, asMember_place]
  cases i <;> rfl

namespace Device

variable {d d' : Device}

/-- Expanding a device expands its members. -/
theorem elements_expand (h : d.expand.result = .ok d') :
    d'.elements = Member.expandedAll d.elements := by
  obtain ⟨-, -, rfl⟩ := expand_eq_ok_iff.1 h
  unfold elements
  induction d.peripherals with
  | nil => rfl
  | cons p ps ih =>
      rw [List.flatMap_cons, List.map_append, ih, List.map_cons, Member.expandedAll,
        Peripheral.map_asMember_expansion, Peripheral.instances_asMember]

theorem elements_mapRegisters (d : Device) (f : List Nat → Register → Register) :
    (d.mapRegisters f).elements = Member.mapRegistersAll f [] 0 d.elements := by
  refine List.ext_getElem? fun i => ?_
  rw [elements, List.getElem?_map, getElem?_mapRegisters, Member.getElem?_mapRegistersAll,
    elements, List.getElem?_map, Nat.zero_add]
  cases d.peripherals[i]? with
  | none => rfl
  | some p =>
      simp only [Option.map_some, Peripheral.asMember, Peripheral.memberList]
      cases p.members <;> rfl

/-- The members of the device make up a scope, and a register stands in it where it stands in the
device. -/
theorem site?_elements (d : Device) (position : List Nat) :
    Scope.site? ⟨[], d.path, d.elements⟩ position = d.site? position := by
  cases position with
  | nil => rfl
  | cons i is =>
      cases h : d.peripherals[i]? with
      | none => simp [Scope.site?, site?, elements, h]
      | some p =>
          have hmember : d.elements[i]? = some p.asMember := by simp [elements, h]
          rw [Scope.site?_cluster (s := ⟨[], d.path, d.elements⟩) hmember, site?, h]
          rfl

theorem each_register {P : Member → Prop} (h : Member.EachAll P d.elements) {t : Site}
    (ht : t ∈ d.sites) : P (.register t.register) := by
  rw [mem_sites_iff, ← site?_elements] at ht
  exact Member.EachAll.register (s := ⟨[], d.path, d.elements⟩) h ht

/-- Replacing the registers of a device replaces those that it has. -/
theorem alikeAll_mapRegisters {f : List Nat → Register → Register}
    {S : Register → Register → Prop} (h : ∀ t ∈ d.sites, S t.register (f t.position t.register)) :
    Member.AlikeAll (Member.Replaces S) d.elements (d.mapRegisters f).elements := by
  rw [elements_mapRegisters]
  exact Member.alikeAll_mapRegistersAll_from (R := Member.Replaces S) (fun _ _ _ => rfl)
    ⟨[], d.path, d.elements⟩ 0 d.elements (fun i m hm => by rwa [Nat.zero_add])
    fun is t ht => h t (mem_sites_of_site? ((site?_elements d is).symm.trans ht))

theorem alikeAll_resolveAlternates (h : d.resolveAlternates.result = .ok d') :
    Member.AlikeAll Member.Resembles d.elements d'.elements ∧
      d' = { d with peripherals := d'.peripherals } := by
  obtain ⟨headers, hheaders, h⟩ := Logged.bind_eq_ok_iff.1 h
  obtain ⟨inside, hinside, h⟩ := Logged.bind_eq_ok_iff.1 h
  cases h
  refine ⟨?_, rfl⟩
  obtain ⟨own, hown, rfl⟩ := foldrM_cons_eq_ok_iff.1 hinside
  have hlinked := forall₂_linkSiblings hheaders
  rw [List.forall₂_map_left_iff] at hlinked
  refine Member.alikeAll_iff.2 ?_
  unfold elements
  rw [List.append_nil, List.forall₂_map_left_iff, List.forall₂_map_right_iff]
  refine forall₂_zipWith hlinked hown fun p header q same hq => ?_
  obtain ⟨alternates, rfl⟩ := same
  unfold Peripheral.linkInside at hq
  split at hq
  · next hnone =>
    cases hq
    refine ⟨⟨rfl, ⟨_, _, rfl⟩, rfl, rfl⟩, ?_⟩
    simp [Peripheral.memberList, hnone, Member.AlikeAll]
  · next ms hms =>
    obtain ⟨ms', hms', hq⟩ := bind_eq_ok_iff.1 hq
    cases hq
    refine ⟨⟨rfl, ⟨_, _, rfl⟩, rfl, rfl⟩, ?_⟩
    rw [Peripheral.memberList, hms]
    exact Member.alikeAll_linkAll hms'

theorem resolveAddresses_eq_ok {tolerant : Bool}
    (h : (d.resolveAddresses tolerant).result = .ok d') : d' = d.placeAll := by
  obtain ⟨_, -, h⟩ := Logged.bind_eq_ok_iff.1 h
  obtain ⟨_, -, h⟩ := Logged.bind_eq_ok_iff.1 h
  obtain ⟨_, -, h⟩ := Logged.bind_eq_ok_iff.1 h
  obtain ⟨_, -, h⟩ := Logged.bind_eq_ok_iff.1 h
  cases h
  rfl

theorem alikeAll_placeAll (d : Device) :
    Member.AlikeAll Member.Resembles d.elements d.placeAll.elements := by
  refine Member.alikeAll_iff.2 ?_
  unfold elements placeAll
  rw [List.forall₂_map_left_iff, List.map_map, List.forall₂_map_right_iff, List.forall₂_same]
  intro p _
  refine ⟨⟨rfl, ⟨_, _, rfl⟩, rfl, rfl⟩, ?_⟩
  rw [Peripheral.memberList_placeAll, ← Member.placeAllAt_eq_map]
  exact Member.alikeAll_placeAllAt _ _

end Device

end RegisterMap.Draft
