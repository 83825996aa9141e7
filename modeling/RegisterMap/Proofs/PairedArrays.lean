import RegisterMap.Proofs.Addresses
import RegisterMap.Proofs.SiblingGroups

/-!
# Arrays that are views of each other

An array is declared to be another view of a sibling array under the name that the latter has before
expansion. The index tokens are put into the reference as they are put into names, so the instances
of the two arrays with the same token are views of each other, whatever form the placeholders have.
If nothing else in the scope refers to an alternate, they are alternates of nothing else.

A scope of a draft that has arrays around it has several copies in the expanded draft. One of them
is chosen by a way (`Member.Way`), and found in the linked draft by going along the names of its
steps (`Member.membersAt?`).
-/

namespace RegisterMap.Draft

namespace Member

/-- The members of the element to which a way leads, or those among which it starts. -/
def membersOf (ms : List Member) : List Step → List Member
  | [] => ms
  | s :: ss => membersOf s.element.members ss

/-- The members of the element at which one arrives by names, starting among some members. -/
def membersAt? (ms : List Member) : List String → Option (List Member)
  | [] => some ms
  | name :: names => (ms.find? (·.name == name)).bind fun m => membersAt? m.members names

variable {ms ms' ns : List Member} {path : NodePath}

/-- In expanded members, the names along a way lead to the expanded members of its element. -/
theorem membersAt?_expandedAll {ss : List Step} (way : Way ms ss)
    (names : ((expandedAll ms).map name).Nodup) (distinct : EachAll Distinct (expandedAll ms)) :
    membersAt? (expandedAll ms) (ss.map (·.name)) = some (expandedAll (membersOf ms ss)) ∧
      ((expandedAll (membersOf ms ss)).map name).Nodup := by
  induction way with
  | nil => exact ⟨rfl, names⟩
  | @cons ms s ss mem valid rest ih =>
      obtain ⟨i, hi, shows⟩ := valid.exists_instance
      have hn : place s.element.expanded i ∈ expandedAll ms :=
        mem_expandedAll_iff.2 ⟨s.element, mem, i, hi, rfl⟩
      have hfind : (expandedAll ms).find? (·.name == s.name) =
          some (place s.element.expanded i) := by
        refine find?_eq_some_of_unique hn (beq_iff_eq.2 shows.name) fun k hk hname => ?_
        exact List.inj_on_of_nodup_map names hk hn ((beq_iff_eq.1 hname).trans shows.name.symm)
      obtain ⟨hown, hinside⟩ := each_iff.1 (eachAll_iff.1 distinct _ hn)
      have hnames := hown.members
      rw [shows.members] at hnames hinside
      rw [List.map_cons, membersAt?, hfind, Option.bind_some, shows.members, membersOf]
      exact ih hnames hinside

/-! ### Linking along names -/

/-- A name leads to related members in lists of which each item has the name of its counterpart. -/
theorem exists_find?_of_forall₂ {S : Member → Member → Prop}
    (h : List.Forall₂ (fun m m' => m'.name = m.name ∧ S m m') ms ms') {name : String} {m : Member}
    (hm : ms.find? (·.name == name) = some m) :
    ∃ m', ms'.find? (·.name == name) = some m' ∧ S m m' := by
  induction h with
  | nil => cases hm
  | @cons n n' ns ns' hn _ ih =>
      rw [List.find?_cons] at hm ⊢
      rw [hn.1]
      cases hname : n.name == name with
      | true =>
          rw [hname] at hm
          cases hm
          exact ⟨n', rfl, hn.2⟩
      | false =>
          rw [hname] at hm
          exact ih hm

/-- Linked members keep their names, and what is inside of them is linked. -/
theorem forall₂_members_linkAll (h : linkAll path ms = .ok ms') :
    List.Forall₂ (fun m m' => m'.name = m.name ∧
      ∃ path', linkAll path' m.members = .ok m'.members) ms ms' := by
  obtain ⟨headers, inside, hheaders, hinside, -, rfl⟩ := linkAll_eq_ok h
  refine forall₂_zipWith (forall₂_names hheaders) hinside fun m header m' hname hm => ⟨?_, ?_⟩
  · exact (name_withHeader header m').trans hname
  · rw [members_withHeader]
    cases m with
    | register r =>
        cases hm
        exact ⟨path, rfl⟩
    | cluster c ns =>
        rw [linkInside_cluster] at hm
        obtain ⟨ns', hns', rfl⟩ := map_eq_ok_iff.1 hm
        exact ⟨_, hns'⟩

/-- Names that lead somewhere in some members lead to the same place, linked, in the linked
members. -/
theorem exists_membersAt?_linkAll (h : linkAll path ms = .ok ms') {names : List String}
    (hns : membersAt? ms names = some ns) :
    ∃ path' ns', membersAt? ms' names = some ns' ∧ linkAll path' ns = .ok ns' := by
  induction names generalizing path ms ms' with
  | nil =>
      cases hns
      exact ⟨path, ms', rfl, h⟩
  | cons name names ih =>
      obtain ⟨m, hm, hns⟩ := Option.bind_eq_some_iff.1 hns
      obtain ⟨m', hm', path', hlink⟩ := exists_find?_of_forall₂ (forall₂_members_linkAll h) hm
      rw [membersAt?, hm', Option.bind_some]
      exact ih hlink hns

end Member

/-! ### Alternates in a scope -/

/-- An element that a reference connects with another one has as its alternates, whatever they have
been before, the elements with which it is connected. -/
theorem mem_alternates_linkSibling_iff {siblings : List Sibling}
    (names : (siblings.map (·.header.name)).Nodup) {s : Sibling} {i : Nat}
    (hs : siblings[i]? = some s) {y : String} (hne : y ≠ s.header.name)
    (connected : Relation.EqvGen (AlternateOf siblings) s.header.name y) {x : String} :
    x ∈ (linkSibling siblings (linkedSets (linkedPairs siblings)) s i).alternates ↔
      x ≠ s.header.name ∧ Relation.EqvGen (AlternateOf siblings) s.header.name x := by
  obtain ⟨set, hset, hself, -⟩ := (exists_linkedSet_iff hne.symm).2 connected
  constructor
  · intro hx
    unfold linkSibling at hx
    split at hx
    · next found hfound =>
      rw [lastSibling?_eq_some names hs, Option.any_some, beq_self_eq_true, if_pos rfl,
        NameSet.mem_erase, NameSet.mem_ofList] at hx
      have hfoundself : s.header.name ∈ found := by simpa using List.find?_some hfound
      exact ⟨hx.2, (exists_linkedSet_iff hx.2.symm).1
        ⟨found, List.mem_of_find?_eq_some hfound, hfoundself, hx.1⟩⟩
    · next hnone => exact absurd hself (by simpa using List.find?_eq_none.1 hnone set hset)
  · rintro ⟨hx, hconnected⟩
    obtain ⟨set', hset', hself', hmem⟩ := (exists_linkedSet_iff hx.symm).2 hconnected
    exact mem_alternates_of_mem_set names hs hset' hself' hmem hx

/-- If a reference connects the element with another sibling, the alternates in the header are the
siblings with which it is connected. -/
def Sibling.HasConnected (siblings : List Sibling) (s : Sibling) (h : Header) : Prop :=
  ∀ y, y ≠ s.header.name → Relation.EqvGen (AlternateOf siblings) s.header.name y →
    ∀ x, x ∈ h.alternates ↔
      x ≠ s.header.name ∧ Relation.EqvGen (AlternateOf siblings) s.header.name x

/-- In a group that has been linked, every reference leads to a sibling of the same kind, and
elements that are connected with others have them as their alternates. -/
theorem SiblingGroup.Links.hasConnected {g g' : SiblingGroup} (h : g.Links g')
    (names : (g.siblings.map (·.header.name)).Nodup) :
    AlternatesExist g.siblings ∧
      List.Forall₂ (fun s s' => s.HasConnected g.siblings s'.header) g.siblings g'.siblings := by
  obtain ⟨headers, hheaders, hsiblings⟩ := h.headers
  obtain ⟨pairs, hpairs, hheaders⟩ := bind_eq_ok_iff.1 hheaders
  have exist := Draft.alternatesExist_of_links hpairs
  rw [links_eq_ok names exist] at hpairs
  cases hpairs
  cases hheaders
  refine ⟨exist, ?_⟩
  have hfst : g.siblings.zipIdx.map (·.1) = g.siblings := List.zipIdx_map_fst 0 g.siblings
  have hheaders : List.Forall₂ (Sibling.HasConnected g.siblings) g.siblings
      (g.siblings.zipIdx.map fun e =>
        linkSibling g.siblings (linkedSets (linkedPairs g.siblings)) e.1 e.2) := by
    conv_lhs => rw [← hfst]
    rw [List.forall₂_map_left_iff, List.forall₂_map_right_iff, List.forall₂_same]
    intro e he y hne connected x
    exact mem_alternates_linkSibling_iff names (List.mk_mem_zipIdx_iff_getElem?.1 he) hne connected
  have hsame : List.Forall₂ (fun _ _ : Sibling => True) g.siblings g.siblings :=
    List.forall₂_same.2 fun _ _ => trivial
  rw [hsiblings]
  exact forall₂_zipWith hheaders hsame fun _ _ _ hconnected _ => hconnected

/-- Chains of references, followed in either direction, connect two names among some members. -/
def Member.Connected (ms : List Member) : String → String → Prop :=
  Relation.EqvGen (AlternateOf (ms.map asSibling))

/-- The second member is the first one after the members of its scope have been linked. -/
structure Member.LinkedAmong (ms : List Member) (m m' : Member) : Prop where
  resembles : m.Resembles m'
  connected : m.asSibling.HasConnected (ms.map asSibling) m'.header

/-- The members are linked to one another: each reference leads to one of the same kind. -/
structure Member.LinkedScope (ms ms' : List Member) : Prop where
  exist : AlternatesExist (ms.map asSibling)
  linked : List.Forall₂ (LinkedAmong ms) ms ms'

/-- A member that a reference connects with another one has as its alternates the members with which
it is connected. -/
theorem Member.LinkedScope.exists_linked {ms ms' : List Member} (scope : LinkedScope ms ms')
    {m : Member} (hm : m ∈ ms) {y : String} (hne : y ≠ m.name) (connected : Connected ms m.name y) :
    ∃ m' ∈ ms', m.Resembles m' ∧
      ∀ x, x ∈ m'.header.alternates ↔ x ≠ m.name ∧ Connected ms m.name x := by
  obtain ⟨m', hm', linked⟩ := exists_mem_right scope.linked hm
  exact ⟨m', hm', linked.resembles, linked.connected y hne connected⟩

theorem Member.linkedScope_linkAll {path : NodePath} {ms ms' : List Member}
    (names : (ms.map name).Nodup) (h : linkAll path ms = .ok ms') : LinkedScope ms ms' := by
  have hnames : ((ms.map asSibling).map (·.header.name)).Nodup := by
    rw [List.map_map]
    exact names
  obtain ⟨exist, hconnected⟩ := (linkAll_links h).hasConnected hnames
  have hresembles := (alikeAll_linkAll h).roots
  rw [List.forall₂_map_left_iff, List.forall₂_map_right_iff] at hconnected
  refine ⟨exist, List.forall₂_iff_zip.2 ⟨hresembles.length_eq, fun hm => ⟨?_, ?_⟩⟩⟩
  · exact (List.forall₂_iff_zip.1 hresembles).2 hm
  · exact (List.forall₂_iff_zip.1 hconnected).2 hm

namespace Device

variable {d d' : Device}

theorem alternateOf_elements (d : Device) :
    Draft.AlternateOf (d.elements.map Member.asSibling) = d.AlternateOf := by
  funext x y
  refine propext ⟨?_, ?_⟩
  · rintro ⟨s, hs, hname, hgiven⟩
    obtain ⟨m, hm, rfl⟩ := List.mem_map.1 hs
    obtain ⟨p, hp, rfl⟩ := List.mem_map.1 hm
    exact ⟨p, hp, hname, hgiven⟩
  · rintro ⟨p, hp, hname, hgiven⟩
    exact ⟨p.asMember.asSibling, List.mem_map_of_mem (List.mem_map_of_mem hp), hname, hgiven⟩

theorem AlternatesExist.elements (h : d.AlternatesExist) :
    Draft.AlternatesExist (d.elements.map Member.asSibling) := by
  rintro s hs name hgiven
  obtain ⟨m, hm, rfl⟩ := List.mem_map.1 hs
  obtain ⟨p, hp, rfl⟩ := List.mem_map.1 hm
  obtain ⟨q, hq, hname⟩ := h p hp name hgiven
  exact ⟨q.asMember.asSibling, List.mem_map_of_mem (List.mem_map_of_mem hq), hname, rfl⟩

/-- Peripherals are all of one kind, so they are linked as members of the device. -/
theorem linkedScope_resolveAlternates (names : (d.elements.map Member.name).Nodup)
    (h : d.resolveAlternates.result = .ok d') : Member.LinkedScope d.elements d'.elements := by
  have hnames : ((d.peripherals.map Peripheral.asSibling).map (·.header.name)).Nodup := by
    rw [elements, List.map_map] at names
    rw [List.map_map]
    exact names
  obtain ⟨exist, hconnected⟩ :=
    (List.forall₂_cons.1 (forall₂_siblingGroups h)).1.hasConnected hnames
  refine ⟨(alternatesExist_asSibling.1 exist).elements, ?_⟩
  have hresembles := (alikeAll_resolveAlternates h).1.roots
  have hmembers : List.Forall₂ (fun m m' : Member =>
      m.asSibling.HasConnected (d.elements.map Member.asSibling) m'.header)
      d.elements d'.elements := by
    unfold Sibling.HasConnected at hconnected ⊢
    rw [alternateOf_asSibling, List.forall₂_map_left_iff, List.forall₂_map_right_iff] at hconnected
    rw [alternateOf_elements]
    unfold elements
    rw [List.forall₂_map_left_iff, List.forall₂_map_right_iff]
    exact hconnected
  refine List.forall₂_iff_zip.2 ⟨hresembles.length_eq, fun hm => ⟨?_, ?_⟩⟩
  · exact (List.forall₂_iff_zip.1 hresembles).2 hm
  · exact (List.forall₂_iff_zip.1 hmembers).2 hm

/-- Linked peripherals keep their names, and what is inside of them is linked. -/
theorem forall₂_members_resolveAlternates (h : d.resolveAlternates.result = .ok d') :
    List.Forall₂ (fun m m' : Member => m'.name = m.name ∧
      ∃ path, Member.linkAll path m.members = .ok m'.members) d.elements d'.elements := by
  obtain ⟨headers, hheaders, h⟩ := Logged.bind_eq_ok_iff.1 h
  obtain ⟨inside, hinside, h⟩ := Logged.bind_eq_ok_iff.1 h
  cases h
  obtain ⟨own, hown, rfl⟩ := foldrM_cons_eq_ok_iff.1 hinside
  rw [List.append_nil]
  unfold elements
  rw [List.forall₂_map_left_iff, List.forall₂_map_right_iff]
  refine forall₂_zipWith (forall₂_names hheaders) hown fun p header q hname hq => ?_
  have hmembers := Peripheral.linkAll_memberList hq
  exact ⟨hname, _, hmembers⟩

/-- Names that lead to a scope of the device lead to the same scope, linked, in the linked
device. -/
theorem exists_membersAt?_resolveAlternates (h : d.resolveAlternates.result = .ok d')
    {names : List String} {ms : List Member} (hms : Member.membersAt? d.elements names = some ms)
    (distinct : (ms.map Member.name).Nodup) :
    ∃ ms', Member.membersAt? d'.elements names = some ms' ∧ Member.LinkedScope ms ms' := by
  cases names with
  | nil =>
      cases hms
      exact ⟨d'.elements, rfl, linkedScope_resolveAlternates distinct h⟩
  | cons name names =>
      obtain ⟨m, hm, hms⟩ := Option.bind_eq_some_iff.1 hms
      obtain ⟨m', hm', path, hlink⟩ :=
        Member.exists_find?_of_forall₂ (forall₂_members_resolveAlternates h) hm
      obtain ⟨path', ms', hms', hlink⟩ := Member.exists_membersAt?_linkAll hlink hms
      refine ⟨ms', ?_, Member.linkedScope_linkAll distinct hlink⟩
      rw [Member.membersAt?, hm', Option.bind_some, hms']

end Device

/-! ### Instances of two arrays -/

/-- An array among some members, with its dimension and index tokens. -/
structure IsArray (ms : List Member) (tokens : List String) (dim : Dimension) (a : Member) :
    Prop where
  mem : a ∈ ms
  repeated : a.header.dim = some dim
  named : dim.tokens = .ok tokens

/-- The instance of an array with an index token, and with everything in it expanded. -/
def instanceAt (a : Member) (dim : Dimension) (i : Nat) (token : String) : Member :=
  place a.expanded (some ⟨token, i * dim.step⟩)

theorem name_instanceAt (a : Member) (dim : Dimension) (i : Nat) (token : String) :
    (instanceAt a dim i token).name = instanceName a.name token := by
  cases a <;> rfl

theorem alternate_instanceAt (a : Member) (dim : Dimension) (i : Nat) (token : String) :
    (instanceAt a dim i token).header.alternate =
      a.header.alternate.map (instanceName · token) := by
  cases a <;> rfl

namespace IsArray

variable {ms : List Member} {tokens : List String} {da db : Dimension} {a b : Member}

theorem instances_eq (h : IsArray ms tokens da a) :
    (instances a).map (place a.expanded) =
      tokens.zipIdx.map fun e => instanceAt a da e.2 e.1 := by
  have hdim : Dimensioned.dim a = some da := h.repeated
  rw [instances, hdim]
  dsimp only
  rw [h.named, List.map_map]
  rfl

theorem instanceAt_mem (h : IsArray ms tokens da a) {i : Nat} {token : String}
    (hi : tokens[i]? = some token) : instanceAt a da i token ∈ Member.expandedAll ms := by
  rw [Member.expandedAll_eq_flatMap]
  refine List.mem_flatMap.2 ⟨a, h.mem, ?_⟩
  rw [h.instances_eq]
  exact List.mem_map.2 ⟨(token, i), List.mk_mem_zipIdx_iff_getElem?.2 hi, rfl⟩

theorem names_eq (h : IsArray ms tokens da a) :
    ((instances a).map (place a.expanded)).map Member.name = tokens.map (instanceName a.name) := by
  have hfst : tokens.zipIdx.map (·.1) = tokens := List.zipIdx_map_fst 0 tokens
  rw [h.instances_eq, List.map_map]
  conv_rhs => rw [← hfst, List.map_map]
  exact List.map_congr_left fun e _ => name_instanceAt a da e.2 e.1

/-- Instances of an array differ in their names if their tokens differ. -/
theorem instanceName_inj (h : IsArray ms tokens da a)
    (names : ((Member.expandedAll ms).map Member.name).Nodup) {t u : String} (ht : t ∈ tokens)
    (hu : u ∈ tokens) (heq : instanceName a.name t = instanceName a.name u) : t = u := by
  rw [Member.expandedAll_eq_flatMap, List.map_flatMap, List.nodup_flatMap] at names
  have hown := names.1 a h.mem
  rw [h.names_eq] at hown
  exact List.inj_on_of_nodup_map hown ht hu heq

/-- Instances of two arrays differ in their names. -/
theorem instanceName_ne (ha : IsArray ms tokens da a) (hb : IsArray ms tokens db b) (hne : a ≠ b)
    (names : ((Member.expandedAll ms).map Member.name).Nodup) {t u : String} (ht : t ∈ tokens)
    (hu : u ∈ tokens) : instanceName a.name t ≠ instanceName b.name u := by
  rw [Member.expandedAll_eq_flatMap, List.map_flatMap, List.nodup_flatMap] at names
  let copyNames (m : Member) : List String := ((instances m).map (place m.expanded)).map Member.name
  have : Std.Symm (Function.onFun List.Disjoint copyNames) :=
    ⟨fun _ _ h => List.disjoint_symm h⟩
  have hdisjoint : List.Disjoint (copyNames a) (copyNames b) := names.2.forall ha.mem hb.mem hne
  rw [show copyNames a = _ from ha.names_eq, show copyNames b = _ from hb.names_eq] at hdisjoint
  intro heq
  exact hdisjoint (List.mem_map_of_mem ht) (heq ▸ List.mem_map_of_mem hu)

end IsArray

/-! ### Pairs of instances -/

/-- The second member declares the first one as its alternate, and they are of one kind. -/
structure Member.RefersTo (b a : Member) : Prop where
  given : b.header.alternate = some a.name
  kind : a.kind = b.kind

/-- No element refers to an alternate but the instances of `b`, and possibly those of `a` to the
instances of `b` with the same tokens. -/
def Member.OnlyBetween (tokens : List String) (a b : Member) (ms : List Member) : Prop :=
  ∀ m ∈ ms, ∀ target, m.header.alternate = some target → ∃ token ∈ tokens,
    m.name = instanceName b.name token ∨
      m.name = instanceName a.name token ∧ target = instanceName b.name token

/-- Names that references do not leave are not left by chains of references either. -/
theorem eqvGen_alternateOf_iff {siblings : List Sibling} {P : String → Prop}
    (closed : ∀ x y, AlternateOf siblings x y → (P x ↔ P y)) {x y : String}
    (h : Relation.EqvGen (AlternateOf siblings) x y) : P x ↔ P y := by
  induction h with
  | rel x y hxy => exact closed x y hxy
  | refl x => exact Iff.rfl
  | symm x y _ ih => exact ih.symm
  | trans x y z _ _ ih ih' => exact ih.trans ih'

section

variable {ms ns : List Member} {tokens : List String} {da db : Dimension} {a b : Member}

/-- If nothing else refers to an alternate, references do not leave a pair of instances. -/
theorem mem_pair_iff_of_alternateOf (ha : IsArray ms tokens da a) (hb : IsArray ms tokens db b)
    (hne : a ≠ b) (refers : b.header.alternate = some a.name)
    (names : ((Member.expandedAll ms).map Member.name).Nodup)
    (only : Member.OnlyBetween tokens a b (Member.expandedAll ms)) {token : String}
    (htoken : token ∈ tokens) {x y : String}
    (h : AlternateOf ((Member.expandedAll ms).map Member.asSibling) x y) :
    (x = instanceName a.name token ∨ x = instanceName b.name token) ↔
      (y = instanceName a.name token ∨ y = instanceName b.name token) := by
  have mem_pair (t : String) (ht : t ∈ tokens) :
      (instanceName a.name t = instanceName a.name token ∨
          instanceName a.name t = instanceName b.name token ↔ t = token) ∧
        (instanceName b.name t = instanceName a.name token ∨
          instanceName b.name t = instanceName b.name token ↔ t = token) := by
    have hab := ha.instanceName_ne hb hne names ht htoken
    have hba := (ha.instanceName_ne hb hne names htoken ht).symm
    simp only [hab, hba, or_false, false_or]
    refine ⟨⟨ha.instanceName_inj names ht htoken, fun heq => by rw [heq]⟩,
      ⟨hb.instanceName_inj names ht htoken, fun heq => by rw [heq]⟩⟩
  obtain ⟨s, hs, rfl, hgiven⟩ := h
  obtain ⟨m, hm, rfl⟩ := List.mem_map.1 hs
  obtain ⟨t, ht, hname | ⟨hname, rfl⟩⟩ := only m hm y hgiven
  · -- An instance of `b` refers to the instance of `a` with the same token.
    obtain ⟨j, hj⟩ := List.mem_iff_getElem?.1 ht
    obtain rfl : m = instanceAt b db j t :=
      List.inj_on_of_nodup_map names hm (hb.instanceAt_mem hj)
        (hname.trans (name_instanceAt b db j t).symm)
    have htarget : y = instanceName a.name t := by
      change (instanceAt b db j t).header.alternate = some y at hgiven
      rw [alternate_instanceAt, refers] at hgiven
      exact (Option.some.inj hgiven).symm
    change (instanceAt b db j t).name = _ ∨ (instanceAt b db j t).name = _ ↔ _
    rw [htarget, name_instanceAt, (mem_pair t ht).1, (mem_pair t ht).2]
  · change m.name = _ ∨ m.name = _ ↔ _
    rw [hname, (mem_pair t ht).1, (mem_pair t ht).2]

/-- If the second members are the first ones, linked, references are between the same elements. -/
theorem Member.OnlyBetween.of_linked (only : OnlyBetween tokens a b ns)
    (linked : List.Forall₂ (LinkedAmong ms) ms ns) : OnlyBetween tokens a b ms := by
  intro m hm target hgiven
  obtain ⟨m', hm', hlinked⟩ := exists_mem_right linked hm
  rw [← hlinked.resembles.name]
  refine only m' hm' target ?_
  rw [hlinked.resembles.own (·.alternate) fun _ _ _ => rfl, hgiven]

/-- If chains of references from a name lead nowhere but to another one, it is connected with this
one alone. -/
theorem connected_iff_eq {x y : String} (hne : y ≠ x) (connected : Member.Connected ms x y)
    (only : ∀ z, Member.Connected ms x z → z = x ∨ z = y) (z : String) :
    z ≠ x ∧ Member.Connected ms x z ↔ z = y := by
  constructor
  · rintro ⟨hz, h⟩
    exact (only z h).resolve_left hz
  · rintro rfl
    exact ⟨hne, connected⟩

/-- In a linked scope, the instances of two arrays with the same token are views of each other if
one array is declared to be a view of the other one. -/
theorem Member.LinkedScope.paired (scope : LinkedScope (expandedAll ms) ns)
    (names : ((expandedAll ms).map name).Nodup) (ha : IsArray ms tokens da a)
    (hb : IsArray ms tokens db b) (hne : a ≠ b) (refers : b.header.alternate = some a.name)
    {i : Nat} {token : String} (hi : tokens[i]? = some token) :
    ∃ a' ∈ ns, ∃ b' ∈ ns, (instanceAt a da i token).Resembles a' ∧
      (instanceAt b db i token).Resembles b' ∧ b'.RefersTo a' ∧
      a'.name ∈ b'.header.alternates ∧ b'.name ∈ a'.header.alternates ∧
      (OnlyBetween tokens a b ns →
        (∀ x, x ∈ b'.header.alternates ↔ x = a'.name) ∧
          ∀ x, x ∈ a'.header.alternates ↔ x = b'.name) := by
  have htoken : token ∈ tokens := List.mem_of_getElem? hi
  have hA := ha.instanceAt_mem hi
  have hB := hb.instanceAt_mem hi
  have hnameA := name_instanceAt a da i token
  have hnameB := name_instanceAt b db i token
  have hdiffer : (instanceAt a da i token).name ≠ (instanceAt b db i token).name := by
    rw [hnameA, hnameB]
    exact ha.instanceName_ne hb hne names htoken htoken
  have hgiven : (instanceAt b db i token).header.alternate =
      some (instanceAt a da i token).name := by
    rw [alternate_instanceAt, refers, hnameA]
    rfl
  have hconnected : Connected (expandedAll ms) (instanceAt b db i token).name
      (instanceAt a da i token).name :=
    .rel _ _ ⟨_, List.mem_map_of_mem hB, rfl, hgiven⟩
  obtain ⟨a', ha', hresembles_a, halternates_a⟩ :=
    scope.exists_linked hA hdiffer.symm hconnected.symm
  obtain ⟨b', hb', hresembles_b, halternates_b⟩ := scope.exists_linked hB hdiffer hconnected
  refine ⟨a', ha', b', hb', hresembles_a, hresembles_b, ⟨?_, ?_⟩, ?_⟩
  · rw [hresembles_b.own (·.alternate) fun _ _ _ => rfl, hgiven, hresembles_a.name]
  · obtain ⟨s, hs, hname, hkind⟩ := scope.exist _ (List.mem_map_of_mem hB) _ hgiven
    obtain ⟨m, hm, rfl⟩ := List.mem_map.1 hs
    obtain rfl : m = instanceAt a da i token := List.inj_on_of_nodup_map names hm hA hname
    rw [hresembles_a.kind, hresembles_b.kind]
    exact hkind
  rw [hresembles_a.name, hresembles_b.name]
  simp only [halternates_a, halternates_b]
  refine ⟨⟨hdiffer, hconnected⟩, ⟨hdiffer.symm, hconnected.symm⟩, fun only => ?_⟩
  have pair (x y : String) (h : Connected (expandedAll ms) x y) :
      x = instanceName a.name token ∨ x = instanceName b.name token ↔
        y = instanceName a.name token ∨ y = instanceName b.name token :=
    eqvGen_alternateOf_iff (fun _ _ =>
      mem_pair_iff_of_alternateOf ha hb hne refers names (only.of_linked scope.linked) htoken) h
  rw [← hnameA, ← hnameB] at pair
  refine ⟨connected_iff_eq hdiffer hconnected fun z h => ?_,
    connected_iff_eq hdiffer.symm hconnected.symm fun z h => ?_⟩
  · exact ((pair _ z h).1 (.inr rfl)).symm
  · exact (pair _ z h).1 (.inl rfl)

end

/-- If a draft can be expanded and its alternates can be resolved, then in every copy of a scope the
instances with the same token of two arrays, of which one is declared to be a view of the other one,
are views of each other; and of nothing else, if nothing else in the scope refers to an
alternate. -/
theorem resolveAlternates_pairs_instances {d expanded linked : Device}
    (hexpand : d.expand.result = .ok expanded)
    (hlink : expanded.resolveAlternates.result = .ok linked) {ss : List Step}
    (way : Member.Way d.elements ss) {a b : Member} {da db : Dimension} {tokens : List String}
    (ha : IsArray (Member.membersOf d.elements ss) tokens da a)
    (hb : IsArray (Member.membersOf d.elements ss) tokens db b) (hne : a ≠ b)
    (refers : b.header.alternate = some a.name) :
    ∃ ns, Member.membersAt? linked.elements (ss.map (·.name)) = some ns ∧
      (ns.map Member.name).Nodup ∧
      ∀ i token, tokens[i]? = some token → ∃ a' ∈ ns, ∃ b' ∈ ns,
        (instanceAt a da i token).Resembles a' ∧ (instanceAt b db i token).Resembles b' ∧
        b'.RefersTo a' ∧ a'.name ∈ b'.header.alternates ∧ b'.name ∈ a'.header.alternates ∧
        (Member.OnlyBetween tokens a b ns →
          (∀ x, x ∈ b'.header.alternates ↔ x = a'.name) ∧
            ∀ x, x ∈ a'.header.alternates ↔ x = b'.name) := by
  have hdistinct := Device.distinct_of_expand hexpand
  have helements := Device.elements_expand hexpand
  have hnames : ((Member.expandedAll d.elements).map Member.name).Nodup := by
    rw [← helements, Device.names_elements]
    exact hdistinct.peripherals
  obtain ⟨hscope, hscope_names⟩ :=
    Member.membersAt?_expandedAll way hnames (helements ▸ hdistinct.members)
  rw [← helements] at hscope
  obtain ⟨ns, hns, scope⟩ :=
    Device.exists_membersAt?_resolveAlternates hlink hscope hscope_names
  have hsame := map_eq_map_of_forall₂ scope.linked fun _ _ h => h.resembles.name.symm
  refine ⟨ns, hns, hsame ▸ hscope_names, fun i token hi => ?_⟩
  exact scope.paired hscope_names ha hb hne refers hi

/-- An array of registers. -/
def viewed : Member :=
  .register { name := "R[%s]", dim := some ⟨2, 4, some "A-B"⟩ }

/-- An array of other views of these registers, with another kind of placeholder and another form of
index list. -/
def views : Member :=
  .register { name := "S%s", dim := some ⟨2, 8, some "A,B"⟩, alternate := some "R[%s]" }

/-- An array of peripherals with both arrays. -/
def viewedTwice : Peripheral :=
  { name := "P%s", dim := some ⟨2, 256, none⟩, members := some [viewed, views] }

/-- In the second peripheral, the registers with the second token are views of each other only. -/
theorem resolveAlternates_pairs_instances_viewedTwice :
    ∃ (d expanded linked : Device) (ns : List Member), d.peripherals = [viewedTwice] ∧
      d.expand.result = .ok expanded ∧ expanded.resolveAlternates.result = .ok linked ∧
      Member.membersAt? linked.elements ["P1"] = some ns ∧
      ∃ a ∈ ns, ∃ b ∈ ns, a.name = "R_B" ∧ b.name = "SB" ∧ b.RefersTo a ∧
        (∀ x, x ∈ b.header.alternates ↔ x = "R_B") ∧ ∀ x, x ∈ a.header.alternates ↔ x = "SB" := by
  let d : Device := { name := "D", peripherals := [viewedTwice] }
  have hrun : d.expand.result.toOption.any fun expanded =>
      expanded.resolveAlternates.result.toOption.any fun linked =>
        ((Member.membersAt? linked.elements ["P1"]).map fun ns =>
          ns.map fun m => (m.name, m.header.alternate)) =
            some [("R_A", none), ("R_B", none), ("SA", some "R_A"), ("SB", some "R_B")] := by
    decide +kernel
  obtain ⟨expanded, hexpand, h⟩ := exists_ok_of_any hrun
  obtain ⟨linked, hlink, h⟩ := exists_ok_of_any h
  obtain ⟨ns', hns', hlist⟩ := Option.map_eq_some_iff.1 (of_decide_eq_true h)
  have valid : Step.Valid ⟨viewedTwice.asMember, 1, instanceName "P%s" "1"⟩ :=
    .array rfl (rfl : Dimension.tokens ⟨2, 256, none⟩ = .ok ["0", "1"]) rfl
  have way : Member.Way d.elements [⟨viewedTwice.asMember, 1, "P1"⟩] :=
    .cons (List.mem_singleton_self _) valid .nil
  have ha : IsArray [viewed, views] ["A", "B"] ⟨2, 4, some "A-B"⟩ viewed := ⟨by simp, rfl, rfl⟩
  have hb : IsArray [viewed, views] ["A", "B"] ⟨2, 8, some "A,B"⟩ views := ⟨by simp, rfl, rfl⟩
  obtain ⟨ns, hns, -, hpairs⟩ :=
    resolveAlternates_pairs_instances hexpand hlink way ha hb (by simp [viewed, views]) rfl
  obtain rfl : ns' = ns := Option.some.inj (hns'.symm.trans hns)
  obtain ⟨a, ha, b, hb, hresembles_a, hresembles_b, hrefers, -, -, hexact⟩ := hpairs 1 "B" rfl
  have hname_a : a.name = "R_B" := hresembles_a.name
  have hname_b : b.name = "SB" := hresembles_b.name
  have only : Member.OnlyBetween ["A", "B"] viewed views ns' := by
    intro m hm target hgiven
    have hmem := List.mem_map_of_mem (f := fun m : Member => (m.name, m.header.alternate)) hm
    rw [hlist, hgiven] at hmem
    simp only [List.mem_cons, Prod.mk.injEq, reduceCtorEq, and_false, false_or, List.not_mem_nil,
      or_false] at hmem
    rcases hmem with ⟨hname, -⟩ | ⟨hname, -⟩
    · exact ⟨"A", by simp, .inl hname⟩
    · exact ⟨"B", by simp, .inl hname⟩
  rw [hname_a, hname_b] at hexact
  exact ⟨d, expanded, linked, ns', rfl, hexpand, hlink, hns, a, ha, b, hb, hname_a, hname_b,
    hrefers, hexact only⟩

end RegisterMap.Draft
