import RegisterMap.Proofs.Components
import RegisterMap.Proofs.Failure
import RegisterMap.Proofs.Linking

/-!
# Alternates as connected siblings

Siblings with distinct names can be linked if and only if each reference to an alternate names a
sibling of the same kind. The alternates of an element are then the other siblings that are
connected to it by such references, followed in either direction (`linkSiblings_eq_ok_iff`).

The same is said for the peripherals of a device (`Device.resolveAlternates_eq_ok_iff`), apart from
what is inside of each of them.
-/

namespace RegisterMap

theorem NameSet.eq_of_mem_iff {s t : NameSet} (h : ∀ x, x ∈ s ↔ x ∈ t) : s = t := by
  have nodup (s : NameSet) : s.toList.Nodup := s.ascending.imp String.ne_of_lt
  have hperm : s.toList.Perm t.toList := (List.perm_ext_iff_of_nodup (nodup s) (nodup t)).2 h
  have hlist : s.toList = t.toList := by
    refine hperm.eq_of_pairwise (fun a b _ _ hab hba => ?_) s.ascending t.ascending
    exact absurd (String.lt_trans hab hba) (String.lt_irrefl a)
  cases s
  cases t
  cases hlist
  rfl

namespace Draft

/-- The element called `x` is declared to be another view of the one called `y`. -/
def AlternateOf (siblings : List Sibling) (x y : String) : Prop :=
  ∃ s ∈ siblings, s.header.name = x ∧ s.header.alternate = some y

/-- Each element that is declared to be another view of a sibling names one of the same kind. -/
def AlternatesExist (siblings : List Sibling) : Prop :=
  ∀ s ∈ siblings, ∀ name, s.header.alternate = some name →
    ∃ t ∈ siblings, t.header.name = name ∧ t.kind = s.kind

/-- The header is that of the element among its siblings, with the elements that are connected to it
as its alternates. -/
structure Sibling.LinksTo (siblings : List Sibling) (s : Sibling) (h : Header) : Prop where
  rest : h = { s.header with alternates := h.alternates }
  mem : ∀ x, x ∈ h.alternates ↔
    x ≠ s.header.name ∧ Relation.EqvGen (AlternateOf siblings) s.header.name x

theorem Sibling.LinksTo.unique {siblings : List Sibling} {s : Sibling} {h h' : Header}
    (links : s.LinksTo siblings h) (links' : s.LinksTo siblings h') : h = h' := by
  have hsame : h.alternates = h'.alternates :=
    NameSet.eq_of_mem_iff fun x => (links.mem x).trans (links'.mem x).symm
  rw [links.rest, links'.rest, hsame]

/-! ### References -/

variable {path : NodePath} {siblings : List Sibling}

/-- The name that an element refers to counts if it is that of another sibling. -/
def Sibling.otherName (s : Sibling) : Option String :=
  s.header.alternate.filter (· ≠ s.header.name)

theorem alternateOf_eq_ok (names : (siblings.map (·.header.name)).Nodup) {s : Sibling} {i : Nat}
    (hs : siblings[i]? = some s) (exist : ∀ name, s.header.alternate = some name →
      ∃ t ∈ siblings, t.header.name = name ∧ t.kind = s.kind) :
    alternateOf path siblings s i = .ok s.otherName := by
  unfold alternateOf Sibling.otherName
  cases hgiven : s.header.alternate with
  | none => rfl
  | some name =>
      obtain ⟨t, ht, hname, hkind⟩ := exist name hgiven
      obtain ⟨j, hj⟩ := List.mem_iff_getElem?.1 ht
      have hlast := lastSibling?_eq_some names hj
      rw [hname] at hlast
      have hself : j = i ↔ name = s.header.name := by
        constructor
        · rintro rfl
          rw [hs] at hj
          cases hj
          exact hname.symm
        · intro heq
          exact index_eq_of_key_eq names hj hs (hname.trans heq)
      simp only [hlast, Option.filter_some, hkind, decide_true, if_true, hself]
      by_cases heq : name = s.header.name
      · simp [heq]
      · simp [heq]

theorem alternateOf_eq_error {s : Sibling} {i : Nat} {e : Error}
    (h : alternateOf path siblings s i = .error e) :
    ∃ name, s.header.alternate = some name ∧
      e = .missingReference (path.child s.header.name) name (.alternate s.kind) := by
  unfold alternateOf at h
  split at h
  · cases h
  · next name hgiven =>
    split at h
    · cases h
    · cases h
      exact ⟨name, hgiven, rfl⟩

theorem exists_of_alternateOf_eq_ok {s : Sibling} {i : Nat} {found : Option String}
    (h : alternateOf path siblings s i = .ok found) (name : String)
    (given : s.header.alternate = some name) :
    ∃ t ∈ siblings, t.header.name = name ∧ t.kind = s.kind := by
  unfold alternateOf at h
  rw [given] at h
  dsimp only at h
  split at h
  · next t j hfound =>
    obtain ⟨hlast, hkind⟩ := Option.filter_eq_some_iff.1 hfound
    have hmem := List.mem_reverse.1 (List.mem_of_find?_eq_some hlast)
    refine ⟨t, List.fst_mem_of_mem_zipIdx hmem, ?_, of_decide_eq_true hkind⟩
    simpa using List.find?_some hlast
  · cases h

/-- The pairs of names that are linked among siblings with distinct names. -/
def linkedPairs (siblings : List Sibling) : List (String × String) :=
  siblings.filterMap fun s => s.otherName.map fun name => (s.header.name, name)

theorem mem_linkedPairs_iff {x y : String} :
    (x, y) ∈ linkedPairs siblings ↔ AlternateOf siblings x y ∧ y ≠ x := by
  simp only [linkedPairs, Sibling.otherName, List.mem_filterMap, Option.map_eq_some_iff,
    Option.filter_eq_some_iff, Prod.mk.injEq, decide_eq_true_eq]
  constructor
  · rintro ⟨s, hs, name, ⟨hgiven, hne⟩, rfl, rfl⟩
    exact ⟨⟨s, hs, rfl, hgiven⟩, hne⟩
  · rintro ⟨⟨s, hs, rfl, hgiven⟩, hne⟩
    exact ⟨s, hs, y, ⟨hgiven, hne⟩, rfl, rfl⟩

/-- A reference of an element to itself connects nothing. -/
theorem eqvGen_linkedPairs_iff {x y : String} :
    Relation.EqvGen (fun x y => (x, y) ∈ linkedPairs siblings) x y ↔
      Relation.EqvGen (AlternateOf siblings) x y := by
  constructor
  · exact Relation.EqvGen.mono (fun x y h => (mem_linkedPairs_iff.1 h).1) x y
  · intro h
    induction h with
    | rel x y hxy =>
        by_cases heq : y = x
        · subst heq
          exact .refl y
        · exact .rel x y (mem_linkedPairs_iff.2 ⟨hxy, heq⟩)
    | refl x => exact .refl x
    | symm x y _ ih => exact ih.symm x y
    | trans x y z _ _ ih ih' => exact ih.trans x y z ih'

theorem links_eq_ok (names : (siblings.map (·.header.name)).Nodup)
    (exist : AlternatesExist siblings) :
    links path siblings = .ok (linkedPairs siblings) := by
  have hall : ∀ e ∈ siblings.zipIdx,
      (do return (← alternateOf path siblings e.1 e.2).map fun name => (e.1.header.name, name)) =
        Except.ok (ε := Error) (e.1.otherName.map fun name => (e.1.header.name, name)) := by
    intro e he
    have hs := List.mk_mem_zipIdx_iff_getElem?.1 he
    rw [alternateOf_eq_ok names hs (exist e.1 (List.fst_mem_of_mem_zipIdx he))]
    rfl
  have hfound := mapM_eq_ok_of_forall hall
  unfold links
  rw [bind_eq_ok_iff]
  refine ⟨_, hfound, ?_⟩
  have hlist : siblings.zipIdx.filterMap
      (fun e => e.1.otherName.map fun name => (e.1.header.name, name)) = linkedPairs siblings := by
    have hfst : siblings.zipIdx.map (·.1) = siblings := List.zipIdx_map_fst 0 siblings
    conv_rhs => rw [← hfst]
    rw [linkedPairs, List.filterMap_map]
    rfl
  rw [List.filterMap_map, Function.id_comp, hlist]
  rfl

theorem alternatesExist_of_links {pairs : List (String × String)}
    (h : links path siblings = .ok pairs) : AlternatesExist siblings := by
  intro s hs name hgiven
  obtain ⟨found, hfound, -⟩ := bind_eq_ok_iff.1 h
  obtain ⟨i, hi⟩ := List.mem_iff_getElem?.1 hs
  obtain ⟨r, -, hr⟩ := exists_mem_right (mapM_eq_ok_iff.1 hfound)
    (List.mk_mem_zipIdx_iff_getElem?.2 hi)
  obtain ⟨target, htarget, -⟩ := bind_eq_ok_iff.1 hr
  exact exists_of_alternateOf_eq_ok htarget name hgiven

/-! ### Siblings with distinct names -/

theorem exists_linkedSet_iff {x y : String} (hne : x ≠ y) :
    (∃ set ∈ linkedSets (linkedPairs siblings), x ∈ set ∧ y ∈ set) ↔
      Relation.EqvGen (AlternateOf siblings) x y := by
  rw [← eqvGen_linkedPairs_iff, ← DisjointSets.mem_groups_foldl_union_iff hne]
  unfold linkedSets
  constructor
  · rintro ⟨set, hset, h⟩
    obtain ⟨g, hg, rfl⟩ := List.mem_map.1 hset
    exact ⟨g, hg, h⟩
  · rintro ⟨g, hg, h⟩
    exact ⟨g.2, List.mem_map_of_mem hg, h⟩

theorem Sibling.linksTo_linkSibling (names : (siblings.map (·.header.name)).Nodup)
    {s : Sibling} {i : Nat} (hs : siblings[i]? = some s) (unlinked : s.header.Unlinked) :
    s.LinksTo siblings (linkSibling siblings (linkedSets (linkedPairs siblings)) s i) := by
  constructor
  · unfold linkSibling
    split
    · dsimp only
      split
      · rfl
      · rfl
    · rfl
  · intro x
    constructor
    · intro hx
      obtain ⟨set, hset, hself, hx, hne⟩ := exists_set_of_mem_alternates unlinked hx
      exact ⟨hne, (exists_linkedSet_iff hne.symm).1 ⟨set, hset, hself, hx⟩⟩
    · rintro ⟨hne, hconnected⟩
      obtain ⟨set, hset, hself, hx⟩ := (exists_linkedSet_iff hne.symm).2 hconnected
      exact mem_alternates_of_mem_set names hs hset hself hx hne

/-- Siblings with distinct names, none of which is linked yet, can be linked if and only if their
alternates exist. Each of them then has the siblings that are connected to it as its alternates. -/
theorem linkSiblings_eq_ok_iff (path : NodePath) (names : (siblings.map (·.header.name)).Nodup)
    (unlinked : ∀ s ∈ siblings, s.header.Unlinked) (headers : List Header) :
    linkSiblings path siblings = .ok headers ↔
      AlternatesExist siblings ∧ List.Forall₂ (Sibling.LinksTo siblings) siblings headers := by
  have linked (exist : AlternatesExist siblings) : ∃ headers,
      linkSiblings path siblings = .ok headers ∧
        List.Forall₂ (Sibling.LinksTo siblings) siblings headers := by
    refine ⟨siblings.zipIdx.map fun e =>
      linkSibling siblings (linkedSets (linkedPairs siblings)) e.1 e.2, ?_, ?_⟩
    · rw [linkSiblings, links_eq_ok names exist]
      rfl
    · have hfst : siblings.zipIdx.map (·.1) = siblings := List.zipIdx_map_fst 0 siblings
      conv_lhs => rw [← hfst]
      rw [List.forall₂_map_left_iff, List.forall₂_map_right_iff, List.forall₂_same]
      intro e he
      exact Sibling.linksTo_linkSibling names (List.mk_mem_zipIdx_iff_getElem?.1 he)
        (unlinked e.1 (List.fst_mem_of_mem_zipIdx he))
  constructor
  · intro h
    obtain ⟨pairs, hpairs, -⟩ := bind_eq_ok_iff.1 h
    have exist := alternatesExist_of_links hpairs
    obtain ⟨headers', hlinked, hall⟩ := linked exist
    rw [h] at hlinked
    cases hlinked
    exact ⟨exist, hall⟩
  · rintro ⟨exist, hall⟩
    obtain ⟨headers', hlinked, hall'⟩ := linked exist
    have hunique : Relator.RightUnique (Sibling.LinksTo siblings) :=
      fun _ _ _ links links' => links.unique links'
    have hsame : headers = headers' := List.right_unique_forall₂' hunique hall hall'
    rw [hsame]
    exact hlinked

/-- Siblings cannot be linked only because of the alternate of one of them. -/
theorem exists_alternateOf_eq_error {e : Error} (h : linkSiblings path siblings = .error e) :
    ∃ s i, siblings[i]? = some s ∧ alternateOf path siblings s i = .error e := by
  rcases bind_eq_error_iff.1 h with h | ⟨_, -, h⟩
  · rcases bind_eq_error_iff.1 h with h | ⟨_, -, h⟩
    · obtain ⟨⟨s, i⟩, hs, h⟩ := exists_mem_of_mapM_eq_error h
      rcases bind_eq_error_iff.1 h with h | ⟨_, -, h⟩
      · exact ⟨s, i, List.mk_mem_zipIdx_iff_getElem?.1 hs, h⟩
      · cases h
    · cases h
  · cases h

/-- If siblings cannot be linked, an element among them names an alternate that does not exist. -/
theorem linkSiblings_eq_error {e : Error} (h : linkSiblings path siblings = .error e) :
    ∃ s ∈ siblings, ∃ name, s.header.alternate = some name ∧
      e = .missingReference (path.child s.header.name) name (.alternate s.kind) := by
  obtain ⟨s, i, hs, h⟩ := exists_alternateOf_eq_error h
  obtain ⟨name, hgiven, rfl⟩ := alternateOf_eq_error h
  exact ⟨s, List.mem_of_getElem? hs, name, hgiven, rfl⟩

/-! ### Peripherals -/

/-- The peripheral called `x` is declared to be another view of the one called `y`. -/
def Device.AlternateOf (d : Device) (x y : String) : Prop :=
  ∃ p ∈ d.peripherals, p.name = x ∧ p.alternate = some y

/-- Each peripheral that is declared to be another view of a peripheral names one of the device. -/
def Device.AlternatesExist (d : Device) : Prop :=
  ∀ p ∈ d.peripherals, ∀ name, p.alternate = some name → ∃ q ∈ d.peripherals, q.name = name

/-- The second peripheral is the first one with everything in it linked, and with the peripherals
that are connected to it as its alternates. -/
structure Device.Links (d : Device) (p p' : Peripheral) : Prop where
  inside : ∃ q, p.linkInside (d.path.child p.name) = .ok q ∧
    p' = { q with alternates := p'.alternates }
  mem : ∀ x, x ∈ p'.alternates ↔ x ≠ p.name ∧ Relation.EqvGen d.AlternateOf p.name x

/-- Linking inside of a peripheral changes nothing but its members. -/
theorem Peripheral.rest_linkInside {path : NodePath} {p q : Peripheral}
    (h : p.linkInside path = .ok q) : q = { p with members := q.members } := by
  unfold Peripheral.linkInside at h
  split at h
  · cases h
    rfl
  · obtain ⟨ms, -, h⟩ := bind_eq_ok_iff.1 h
    cases h
    rfl

theorem Peripheral.toHeader_linkInside {path : NodePath} {p q : Peripheral}
    (h : p.linkInside path = .ok q) : q.toHeader = p.toHeader := by
  rw [rest_linkInside h]

namespace Device

variable {d : Device} {p p' : Peripheral}

theorem Links.unique {p'' : Peripheral} (links : d.Links p p') (links' : d.Links p p'') :
    p' = p'' := by
  obtain ⟨q, hq, hp'⟩ := links.inside
  obtain ⟨q', hq', hp''⟩ := links'.inside
  rw [hq] at hq'
  cases hq'
  have hsame : p'.alternates = p''.alternates :=
    NameSet.eq_of_mem_iff fun x => (links.mem x).trans (links'.mem x).symm
  rw [hp', hp'', hsame]

theorem Links.name (links : d.Links p p') : p'.name = p.name := by
  obtain ⟨q, hq, hp'⟩ := links.inside
  have hname : p'.name = q.name := by rw [hp']
  rw [hname, Peripheral.toHeader_linkInside hq]

theorem Links.interrupts (links : d.Links p p') : p'.interrupts = p.interrupts := by
  obtain ⟨q, hq, hp'⟩ := links.inside
  rw [hp', Peripheral.rest_linkInside hq]

theorem alternatesExist_asSibling :
    Draft.AlternatesExist (d.peripherals.map Peripheral.asSibling) ↔ d.AlternatesExist := by
  constructor
  · intro h p hp name hgiven
    obtain ⟨t, ht, hname, -⟩ := h p.asSibling (List.mem_map_of_mem hp) name hgiven
    obtain ⟨q, hq, rfl⟩ := List.mem_map.1 ht
    exact ⟨q, hq, hname⟩
  · intro h s hs name hgiven
    obtain ⟨p, hp, rfl⟩ := List.mem_map.1 hs
    obtain ⟨q, hq, hname⟩ := h p hp name hgiven
    exact ⟨q.asSibling, List.mem_map_of_mem hq, hname, rfl⟩

theorem alternateOf_asSibling :
    Draft.AlternateOf (d.peripherals.map Peripheral.asSibling) = d.AlternateOf := by
  funext x y
  refine propext ⟨?_, ?_⟩
  · rintro ⟨s, hs, hname, hgiven⟩
    obtain ⟨p, hp, rfl⟩ := List.mem_map.1 hs
    exact ⟨p, hp, hname, hgiven⟩
  · rintro ⟨p, hp, hname, hgiven⟩
    exact ⟨p.asSibling, List.mem_map_of_mem hp, hname, hgiven⟩

theorem Links.of_linksTo {h : Header} {q : Peripheral}
    (hh : p.asSibling.LinksTo (d.peripherals.map Peripheral.asSibling) h)
    (hq : p.linkInside (d.path.child p.name) = .ok q) : d.Links p { q with toHeader := h } := by
  refine ⟨⟨q, hq, ?_⟩, fun x => ?_⟩
  · have hheader : h = { q.toHeader with alternates := h.alternates } := by
      rw [Peripheral.toHeader_linkInside hq]
      exact hh.rest
    exact congrArg (fun h => { q with toHeader := h }) hheader
  · rw [← alternateOf_asSibling]
    exact hh.mem x

theorem Links.linksTo (links : d.Links p p') :
    p.asSibling.LinksTo (d.peripherals.map Peripheral.asSibling) p'.toHeader := by
  obtain ⟨q, hq, hp'⟩ := links.inside
  refine ⟨?_, fun x => ?_⟩
  · change p'.toHeader = { p.toHeader with alternates := p'.alternates }
    rw [hp', ← Peripheral.toHeader_linkInside hq]
  · rw [alternateOf_asSibling]
    exact links.mem x

theorem symmetricAlternates_of_links {ps : List Peripheral}
    (h : List.Forall₂ d.Links d.peripherals ps) : SymmetricAlternates (ps.map (·.toHeader)) := by
  intro a ha b hb hmem
  obtain ⟨p', hp', rfl⟩ := List.mem_map.1 ha
  obtain ⟨q', hq', rfl⟩ := List.mem_map.1 hb
  obtain ⟨p, -, hp⟩ := exists_mem_left h hp'
  obtain ⟨q, -, hq⟩ := exists_mem_left h hq'
  rw [hq.name, hp.mem] at hmem
  rw [hp.name, hq.mem]
  exact ⟨hmem.1.symm, hmem.2.symm⟩

/-- Peripherals with distinct names, none of which is linked yet, can be linked if and only if their
alternates exist and everything in them can be linked. Each of them then has the peripherals that
are connected to it as its alternates. -/
theorem resolveAlternates_eq_ok_iff (names : (d.peripherals.map (·.name)).Nodup)
    (unlinked : ∀ p ∈ d.peripherals, p.toHeader.Unlinked) {d' : Device} :
    d.resolveAlternates.result = .ok d' ↔ d.AlternatesExist ∧
      ∃ ps, List.Forall₂ d.Links d.peripherals ps ∧ d' = { d with peripherals := ps } := by
  have hnames : ((d.peripherals.map Peripheral.asSibling).map (·.header.name)).Nodup := by
    rw [List.map_map]
    exact names
  have hlinked := linkSiblings_eq_ok_iff d.path hnames (List.forall_mem_map.2 unlinked)
  have yields {d' : Device} (h : d.resolveAlternates.result = .ok d') : d.AlternatesExist ∧
      ∃ ps, List.Forall₂ d.Links d.peripherals ps ∧ d' = { d with peripherals := ps } := by
    obtain ⟨headers, hheaders, h⟩ := Logged.bind_eq_ok_iff.1 h
    obtain ⟨inside, hinside, h⟩ := Logged.bind_eq_ok_iff.1 h
    cases h
    obtain ⟨exist, hheaders⟩ := (hlinked headers).1 hheaders
    obtain ⟨own, hown, rfl⟩ := foldrM_cons_eq_ok_iff.1 hinside
    rw [List.append_nil]
    rw [List.forall₂_map_left_iff] at hheaders
    exact ⟨alternatesExist_asSibling.1 exist, _,
      forall₂_zipWith hheaders hown fun _ _ _ => Links.of_linksTo, rfl⟩
  constructor
  · exact yields
  · rintro ⟨exist, ps, hps, rfl⟩
    have hheaders : List.Forall₂ (Sibling.LinksTo (d.peripherals.map Peripheral.asSibling))
        (d.peripherals.map Peripheral.asSibling) (ps.map (·.toHeader)) := by
      rw [List.forall₂_map_left_iff, List.forall₂_map_right_iff]
      exact hps.imp fun p p' links => links.linksTo
    have hinside : ∃ inside, List.Forall₂
        (fun p q => Peripheral.linkInside (d.path.child p.name) p = .ok q)
        d.peripherals inside := by
      refine exists_forall₂ fun p hp => ?_
      obtain ⟨p', -, links⟩ := exists_mem_right hps hp
      obtain ⟨q, hq, -⟩ := links.inside
      exact ⟨q, hq⟩
    obtain ⟨inside, hinside⟩ := hinside
    have hrun : ∃ d', d.resolveAlternates.result = .ok d' := by
      refine ⟨{ d with peripherals :=
        (ps.map (·.toHeader)).zipWith (fun h p => { p with toHeader := h }) (inside ++ []) }, ?_⟩
      rw [resolveAlternates, Logged.bind_eq_ok_iff]
      refine ⟨_, (hlinked _).2 ⟨alternatesExist_asSibling.2 exist, hheaders⟩, ?_⟩
      rw [Logged.bind_eq_ok_iff]
      exact ⟨_, foldrM_cons_eq_ok_iff.2 ⟨inside, hinside, rfl⟩, rfl⟩
    obtain ⟨d', hd'⟩ := hrun
    obtain ⟨-, ps', hps', rfl⟩ := yields hd'
    have hunique : Relator.RightUnique d.Links := fun _ _ _ links links' => links.unique links'
    have hsame : ps = ps' := List.right_unique_forall₂' hunique hps hps'
    rw [hd', hsame]

/-- If the alternates of peripherals do not exist, nothing else is reported. -/
theorem resolveAlternates_eq_error (names : (d.peripherals.map (·.name)).Nodup)
    (unlinked : ∀ p ∈ d.peripherals, p.toHeader.Unlinked) (missing : ¬ d.AlternatesExist) :
    ∃ p ∈ d.peripherals, ∃ name, p.alternate = some name ∧ d.resolveAlternates.result =
      .error (.missingReference (d.path.child p.name) name (.alternate .peripheral)) := by
  have hnames : ((d.peripherals.map Peripheral.asSibling).map (·.header.name)).Nodup := by
    rw [List.map_map]
    exact names
  cases hlinked : linkSiblings d.path (d.peripherals.map Peripheral.asSibling) with
  | ok headers =>
      have hexist := ((linkSiblings_eq_ok_iff d.path hnames (List.forall_mem_map.2 unlinked)
        headers).1 hlinked).1
      exact absurd (alternatesExist_asSibling.1 hexist) missing
  | error e =>
      obtain ⟨s, hs, name, hgiven, rfl⟩ := linkSiblings_eq_error hlinked
      obtain ⟨p, hp, rfl⟩ := List.mem_map.1 hs
      refine ⟨p, hp, name, hgiven, ?_⟩
      rw [resolveAlternates, Logged.result_bind, Logged.result_ofExcept, hlinked]
      rfl

end Device

end Draft

end RegisterMap
