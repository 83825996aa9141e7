import RegisterMap.Proofs.Addressing
import RegisterMap.Proofs.Completeness
import RegisterMap.Proofs.SiblingGroups

/-!
# Passes that are run again

A pass that has succeeded leaves nothing for itself to do: run again on the draft that it has given,
it succeeds and gives the same draft. Each pass has its own reason. After derivation nothing is
derived from anything (`Device.Underived`), and after expansion nothing is an array and no name
occurs twice among siblings. Linking writes only alternates and placing writes only addresses and
sizes of clusters, neither of which the pass reads, except for those that it has just written.
-/

namespace RegisterMap.Draft

/-! ### Derivation -/

namespace Member

variable {f : List Nat → Register → Register}

mutual

theorem mapRegisters_eq_self (h : ∀ position r, f position r = r) (position : List Nat) :
    ∀ m : Member, m.mapRegisters f position = m
  | .register r => congrArg register (h position r)
  | .cluster c ms => congrArg (cluster c) (mapRegistersAll_eq_self h position 0 ms)

theorem mapRegistersAll_eq_self (h : ∀ position r, f position r = r) (position : List Nat)
    (i : Nat) : ∀ ms : List Member, mapRegistersAll f position i ms = ms
  | [] => rfl
  | m :: ms => by
      rw [mapRegistersAll, mapRegisters_eq_self h _ m, mapRegistersAll_eq_self h _ _ ms]

end

end Member

theorem preorder_nil (ready : List Numbered) : preorder [] ready = (ready, []) := by
  induction ready with
  | nil => rw [preorder]
  | cons p ready ih =>
      have hsplit : splitDerived p.1.name [] = ([], []) := rfl
      rw [preorder, hsplit, List.nil_append, ih]

theorem derivationOrder_of_underived {parent : NodePath} {ps : List Peripheral}
    (h : ∀ p ∈ ps, p.derivedFrom = none) : derivationOrder parent ps = .ok ps.zipIdx := by
  have hnone : ∀ e ∈ ps.zipIdx, e.1.derivedFrom.isSome = false := fun e he => by
    rw [h e.1 (List.fst_mem_of_mem_zipIdx he)]
    rfl
  have hwaiting : ps.zipIdx.filter (·.1.derivedFrom.isSome) = [] :=
    List.filter_eq_nil_iff.2 fun e he => by simp [hnone e he]
  have hready : ps.zipIdx.filter (!·.1.derivedFrom.isSome) = ps.zipIdx :=
    List.filter_eq_self.2 fun e he => by simp [hnone e he]
  have hsplit : ps.zipIdx.partition (·.1.derivedFrom.isSome) = ([], ps.zipIdx) := by
    rw [List.partition_eq_filter_filter, hwaiting]
    exact congrArg _ hready
  rw [derivationOrder, hsplit]
  dsimp only
  rw [preorder_nil]

namespace Device

variable {d d' : Device}

/-- Neither a peripheral nor a register of the device is derived from another one. -/
structure Underived (d : Device) : Prop where
  peripherals : ∀ p ∈ d.peripherals, p.derivedFrom = none
  registers : ∀ t ∈ d.sites, t.register.derivedFrom = none

theorem mapRegisters_eq_self {f : List Nat → Register → Register}
    (h : ∀ position r, f position r = r) : d.mapRegisters f = d := by
  have hperipherals : (d.mapRegisters f).peripherals = d.peripherals := by
    refine List.ext_getElem? fun i => ?_
    rw [getElem?_mapRegisters]
    cases d.peripherals[i]? with
    | none => rfl
    | some p =>
        have hmembers : p.members.map (Member.mapRegistersAll f [i] 0) = p.members := by
          cases p.members with
          | none => rfl
          | some ms => exact congrArg some (Member.mapRegistersAll_eq_self h [i] 0 ms)
        rw [Option.map_some, hmembers]
  calc
    d.mapRegisters f = { d with peripherals := (d.mapRegisters f).peripherals } := rfl
    _ = d := by rw [hperipherals]

theorem HasBases.derivedFrom_deriveAlong {p : Peripheral} {bases : List Peripheral}
    (h : d.HasBases p bases) : (p.deriveAlong bases).derivedFrom = none := by
  cases h with
  | last own => exact own
  | step => rfl

theorem DerivesAlong.derivedFrom_deriveAlong {s : Site} {bases : List Site}
    (h : d.DerivesAlong s bases) :
    (s.register.deriveAlong (bases.map (·.register))).derivedFrom = none := by
  cases h with
  | last own => exact own
  | step => rfl

/-- When derivations are resolved, no reference is left. -/
theorem underived_of_resolveDerivations (settled : d.Settled)
    (pass : d.resolveDerivations.result = .ok d') : d'.Underived := by
  obtain ⟨middle, f, -, hderives, hregisters, rfl⟩ := resolveDerivations_eq_ok settled pass
  constructor
  · intro p' hp'
    obtain ⟨i, hi⟩ := List.mem_iff_getElem?.1 hp'
    rw [getElem?_mapRegisters] at hi
    obtain ⟨q, hq, rfl⟩ := Option.map_eq_some_iff.1 hi
    obtain ⟨p, -, bases, hbases, rfl⟩ := exists_mem_left hderives (List.mem_of_getElem? hq)
    exact hbases.derivedFrom_deriveAlong
  · intro t' ht'
    rw [mem_sites_iff, site?_mapRegisters] at ht'
    obtain ⟨t, ht, heq⟩ := Option.map_eq_some_iff.1 ht'
    obtain ⟨bases, hbases, hregister⟩ :=
      exists_chain_of_deriveRegister (hregisters t (mem_sites_of_site? ht))
    rw [← heq]
    change (f t.position t.register).derivedFrom = none
    rw [hregister]
    exact hbases.derivedFrom_deriveAlong

theorem Underived.resolveDerivations (h : d.Underived) :
    d.resolveDerivations.result = .ok d := by
  have hbases : d.checkBases = .ok () := by
    rw [checkBases, forM_eq_ok_iff]
    intro p hp
    rw [h.peripherals p hp]
  have hperipherals : d.derivePeripherals = .ok (d, 0) := by
    have hderived : d.peripherals.zipIdx.filter (·.1.derivedFrom.isSome) = [] :=
      List.filter_eq_nil_iff.2 fun e he => by
        rw [h.peripherals e.1 (List.fst_mem_of_mem_zipIdx he)]
        exact Bool.false_ne_true
    unfold derivePeripherals
    rw [bind_eq_ok_iff]
    refine ⟨(), hbases, ?_⟩
    rw [bind_eq_ok_iff]
    refine ⟨_, derivationOrder_of_underived h.peripherals, ?_⟩
    rw [hderived]
    rfl
  have hregisters : d.deriveRegisters = .ok (d, 0) := by
    have hderived : d.sites.filter (·.register.derivedFrom.isSome) = [] :=
      List.filter_eq_nil_iff.2 fun t ht => by
        rw [h.registers t ht]
        exact Bool.false_ne_true
    have hsame : d.mapRegisters (fun position r =>
        (([] : List (List Nat × Register)).lookup position).getD r) = d :=
      mapRegisters_eq_self fun _ _ => rfl
    unfold deriveRegisters
    rw [hderived]
    exact congrArg (fun d => Except.ok (d, 0)) hsame
  rw [Device.resolveDerivations, Logged.bind_eq_ok_iff]
  refine ⟨_, hperipherals, ?_⟩
  rw [Logged.bind_eq_ok_iff]
  exact ⟨_, hregisters, rfl⟩

end Device

/-! ### Expansion -/

section

variable {α : Type} [Dimensioned α] {as : List α}

theorem copies_of_plain (parent : NodePath) {a : α} (plain : Dimensioned.dim a = none) :
    copies parent a = .ok (instances a) := by
  rw [copies, instances, plain]

theorem flatMap_replacements_of_plain (plain : ∀ a ∈ as, Dimensioned.dim a = none) :
    as.flatMap replacements = as := by
  induction as with
  | nil => rfl
  | cons a as ih =>
      rw [List.forall_mem_cons] at plain
      rw [List.flatMap_cons, ih plain.2, replacements_eq_singleton plain.1]
      rfl

/-- Siblings with distinct names stand for themselves, unless there are arrays among them. -/
theorem copiesAll_of_plain (parent : NodePath) (plain : ∀ a ∈ as, Dimensioned.dim a = none)
    (names : (as.map Dimensioned.name).Nodup) :
    copiesAll parent [] as = .ok (as.map instances) := by
  refine copiesAll_eq_ok_iff.2 ⟨fun a ha => copies_of_plain parent (plain a ha), ?_,
    fun _ _ => List.not_mem_nil, rfl⟩
  rwa [flatMap_replacements_of_plain plain]

end

theorem expandFields_of_plain (path : NodePath) {fs : List Field}
    (plain : ∀ f ∈ fs, f.dim = none) (names : (fs.map (·.name)).Nodup) :
    expandFields path fs = .ok fs := by
  rw [expandFields, copiesAll_of_plain path plain names]
  change Except.ok _ = _
  rw [flatMap_zip_instances, flatMap_replacements_of_plain plain]

namespace Member

mutual

theorem expandInside_of_plain (path : NodePath) : ∀ m : Member, m.Each Plain → m.Each Distinct →
    m.expandInside path = .ok m
  | .register r, plain, distinct => by
      have hfields := plain.fields
      have hnames := distinct.fields
      unfold expandInside
      split
      · rfl
      · next fs hfs =>
        rw [fieldList, Register.fieldList, hfs] at hfields hnames
        have hexpanded : expandFields path fs = .ok fs :=
          expandFields_of_plain path hfields hnames
        rw [hexpanded]
        change Except.ok (register { r with fields := some fs }) = _
        rw [← hfs]
  | .cluster c ms, plain, distinct => by
      have hcopies := copiesAll_of_plain path (fun m hm => (plain.2.own m hm).own)
        distinct.1.members
      unfold expandInside
      rw [bind_eq_ok_iff]
      refine ⟨_, hcopies, ?_⟩
      rw [bind_eq_ok_iff]
      exact ⟨ms, expandInsideAll_of_plain path ms plain.2 distinct.2, rfl⟩

theorem expandInsideAll_of_plain (path : NodePath) : ∀ ms : List Member, EachAll Plain ms →
    EachAll Distinct ms → expandInsideAll path (ms.map instances) ms = .ok ms
  | [], _, _ => rfl
  | m :: ms, plain, distinct => by
      have hown : Dimensioned.dim m = none := (each_iff.1 plain.1).1.own
      have hinstances : instances m = [none] := by rw [instances, hown]
      unfold expandInsideAll
      rw [bind_eq_ok_iff]
      refine ⟨ms, expandInsideAll_of_plain path ms plain.2 distinct.2, ?_⟩
      rw [List.map_cons, List.headD_cons, hinstances, List.foldrM_cons]
      rw [bind_eq_ok_iff]
      refine ⟨ms, rfl, ?_⟩
      rw [bind_eq_ok_iff]
      exact ⟨m, expandInside_of_plain _ m plain.1 distinct.1, rfl⟩

end

end Member

theorem Peripheral.expandInside_of_plain (path : NodePath) {p : Peripheral}
    (plain : p.asMember.Each Member.Plain) (distinct : p.asMember.Each Member.Distinct) :
    p.expandInside path = .ok p := by
  have hcopies : copiesAll path [] p.memberList = .ok (p.memberList.map instances) :=
    copiesAll_of_plain path (fun m hm => (plain.2.own m hm).own) distinct.1.members
  have hinside := Member.expandInsideAll_of_plain path _ plain.2 distinct.2
  unfold Peripheral.expandInside
  split
  · rfl
  · next ms hms =>
    have hlist : p.memberList = ms := by
      rw [memberList, hms]
      rfl
    rw [hlist] at hcopies hinside
    rw [Member.expandAll, hcopies, bind_eq_ok_iff]
    refine ⟨ms, hinside, ?_⟩
    rw [← hms]
    rfl

/-- A device without arrays whose siblings have distinct names is expanded already. -/
theorem Device.expand_of_plain {d : Device} (plain : d.Plain) (distinct : d.Distinct) :
    d.expand.result = .ok d := by
  have hinside : ∀ p ∈ d.peripherals, ∀ path, p.expandInside path = .ok p := fun p hp path =>
    p.expandInside_of_plain path (Member.eachAll_iff.1 plain _ (List.mem_map_of_mem hp))
      (Member.eachAll_iff.1 distinct.members _ (List.mem_map_of_mem hp))
  have hown : ∀ p ∈ d.peripherals, Dimensioned.dim p = none := fun p hp =>
    (plain.own _ (List.mem_map_of_mem hp)).own
  have hexpanded : ∀ p ∈ d.peripherals, p.expanded = p := fun p hp =>
    (Peripheral.expandInside_eq_ok (hinside p hp d.path)).symm
  have hexpansion : d.peripherals.flatMap Peripheral.expansion = d.peripherals := by
    calc
      d.peripherals.flatMap Peripheral.expansion
          = (d.peripherals.flatMap replacements).map Peripheral.expanded :=
            (List.map_flatMap ..).symm
      _ = d.peripherals.map Peripheral.expanded := by rw [flatMap_replacements_of_plain hown]
      _ = d.peripherals := by rw [List.map_congr_left hexpanded, List.map_id']
  rw [expand_eq_ok_iff, hexpansion]
  refine ⟨fun p hp => ⟨copies_of_plain d.path (hown p hp), fun q hq => ?_⟩,
    distinct.peripherals, rfl⟩
  rw [replacements_eq_singleton (hown p hp), List.mem_singleton] at hq
  rw [hq, hexpanded p hp]
  exact hinside p hp _

/-! ### Exclusion -/

/-- Nothing that is to be excluded is left. -/
theorem Device.exclude_of_exclude {d d' : Device} {names : List String}
    (pass : (d.exclude names).result = .ok d') : (d'.exclude names).result = .ok d' := by
  cases pass
  have hfilter (ps : List Peripheral) : (ps.filter (!·.isNamedIn names)).filter
      (!·.isNamedIn names) = ps.filter (!·.isNamedIn names) := by
    rw [List.filter_filter]
    simp
  exact congrArg (fun ps => Except.ok { d with peripherals := ps }) (hfilter d.peripherals)

/-! ### Alternates -/

theorem zipWith_zipWith_self {α β : Type} {f : α → β → β}
    (absorb : ∀ a b, f a (f a b) = f a b) (as : List α) (bs : List β) :
    as.zipWith f (as.zipWith f bs) = as.zipWith f bs := by
  induction as generalizing bs with
  | nil => rfl
  | cons a as ih =>
      cases bs with
      | nil => rfl
      | cons b bs => rw [List.zipWith_cons_cons, List.zipWith_cons_cons, ih, absorb]

/-- What linking reads of an element. -/
def Sibling.reference (s : Sibling) : Sibling :=
  ⟨s.kind, { name := s.header.name, alternate := s.header.alternate }⟩

section

variable {path : NodePath} {siblings siblings' : List Sibling}

theorem lastSibling?_map_reference (siblings : List Sibling) (name : String) :
    lastSibling? (siblings.map Sibling.reference) name =
      (lastSibling? siblings name).map fun e => (e.1.reference, e.2) := by
  rw [lastSibling?, List.zipIdx_map, ← List.map_reverse, List.find?_map]
  rfl

theorem alternateOf_map_reference (s : Sibling) (i : Nat) :
    alternateOf path (siblings.map Sibling.reference) s.reference i =
      alternateOf path siblings s i := by
  have hreads : s.reference.header.alternate = s.header.alternate := rfl
  unfold alternateOf
  rw [hreads]
  cases s.header.alternate with
  | none => rfl
  | some name =>
      simp only [lastSibling?_map_reference]
      cases lastSibling? siblings name with
      | none => rfl
      | some e =>
          obtain ⟨t, j⟩ := e
          simp only [Option.map_some, Option.filter_some, Sibling.reference]
          by_cases hkind : t.kind = s.kind
          · simp [hkind]
          · simp [hkind]

theorem links_map_reference (path : NodePath) (siblings : List Sibling) :
    links path (siblings.map Sibling.reference) = links path siblings := by
  unfold links
  rw [List.zipIdx_map, List.mapM_map]
  simp only [Function.comp_def, Prod.map_fst, Prod.map_snd, id_eq, alternateOf_map_reference]
  rfl

/-- Whether an element is the last one of its name can be told from what linking reads. -/
theorem any_lastSibling?_congr (same : siblings'.map Sibling.reference =
    siblings.map Sibling.reference) (name : String) (i : Nat) :
    (lastSibling? siblings' name).any (·.2 == i) = (lastSibling? siblings name).any (·.2 == i) := by
  have hlast := congrArg (lastSibling? · name) same
  simp only [lastSibling?_map_reference] at hlast
  have hany := congrArg (Option.any (·.2 == i)) hlast
  simpa [Option.any_map, Function.comp_def] using hany

/-- An element gets the alternates that it has got already. -/
theorem linkSibling_linkSibling (same : siblings'.map Sibling.reference =
    siblings.map Sibling.reference) (sets : List (List String)) (s : Sibling) (i : Nat) :
    linkSibling siblings' sets (s.withHeader (linkSibling siblings sets s i)) i =
      linkSibling siblings sets s i := by
  unfold linkSibling Sibling.withHeader
  simp only [any_lastSibling?_congr same]
  cases hset : sets.find? (·.contains s.header.name) with
  | none => simp only [hset]
  | some names =>
      by_cases hlast : (lastSibling? siblings s.header.name).any (·.2 == i)
      · simp only [hset, hlast, if_true]
      · simp only [hset, hlast, Bool.false_eq_true, if_false]

/-- Siblings that are linked again get the headers that they have. -/
theorem linkSiblings_linkSiblings {headers : List Header}
    (h : linkSiblings path siblings = .ok headers) :
    linkSiblings path (headers.zipWith Sibling.withHeader siblings) = .ok headers := by
  obtain ⟨pairs, hpairs, hheaders⟩ := bind_eq_ok_iff.1 h
  have hget (i : Nat) : headers[i]? = siblings[i]?.map fun s =>
      linkSibling siblings (linkedSets pairs) s i := by
    cases hheaders
    rw [List.getElem?_map, List.getElem?_zipIdx, Option.map_map]
    simp [Function.comp_def]
  have hgetElem (i : Nat) : (headers.zipWith Sibling.withHeader siblings)[i]? =
      siblings[i]?.map fun s =>
        s.withHeader (linkSibling siblings (linkedSets pairs) s i) := by
    rw [List.getElem?_zipWith, hget]
    cases siblings[i]? <;> rfl
  have hsame : (headers.zipWith Sibling.withHeader siblings).map Sibling.reference =
      siblings.map Sibling.reference := by
    refine List.ext_getElem? fun i => ?_
    rw [List.getElem?_map, List.getElem?_map, hgetElem, Option.map_map]
    refine congrArg (Option.map · siblings[i]?) (funext fun s => ?_)
    obtain ⟨alternates, heq⟩ := linkSibling_eq siblings (linkedSets pairs) s i
    rw [Function.comp_apply, heq]
    rfl
  rw [linkSiblings, ← links_map_reference, hsame, links_map_reference, hpairs]
  refine congrArg Except.ok (List.ext_getElem? fun i => ?_)
  rw [List.getElem?_map, List.getElem?_zipIdx, hgetElem, hget]
  cases siblings[i]? with
  | none => rfl
  | some s =>
      rw [Option.map_some, Option.map_some, Option.map_some, Nat.zero_add]
      exact congrArg some (linkSibling_linkSibling hsame _ s i)

end

namespace Member

theorem withHeader_withHeader (h : Header) (m : Member) :
    (m.withHeader h).withHeader h = m.withHeader h := by
  cases m <;> rfl

theorem linkInside_withHeader (path : NodePath) (h : Header) (m : Member) :
    (m.withHeader h).linkInside path = (·.withHeader h) <$> m.linkInside path := by
  cases m with
  | register r => rfl
  | cluster c ms =>
      rw [withHeader, linkInside_cluster, linkInside_cluster]
      cases linkAll path ms <;> rfl

theorem linkInsideAll_zipWith_withHeader {path : NodePath} {headers : List Header}
    {ms : List Member} (names : headers.map (·.name) = ms.map name) :
    linkInsideAll path (headers.zipWith withHeader ms) =
      headers.zipWith withHeader <$> linkInsideAll path ms := by
  induction ms generalizing headers with
  | nil =>
      rw [List.zipWith_nil_right, linkInsideAll]
      exact congrArg Except.ok List.zipWith_nil_right.symm
  | cons m ms ih =>
      cases headers with
      | nil => cases names
      | cons h headers =>
          rw [List.map_cons, List.map_cons, List.cons.injEq] at names
          obtain ⟨hname, hnames⟩ := names
          rw [List.zipWith_cons_cons, linkInsideAll, linkInsideAll, ih hnames, name_withHeader,
            hname, linkInside_withHeader]
          cases linkInsideAll path ms with
          | error e => rfl
          | ok rest => cases linkInside (path.child m.name) m <;> rfl

/-- Linked members are linked again without a change if the inside of each of them is. -/
theorem linkAll_linkAll {path : NodePath} {ms ms' : List Member}
    (inside : ∀ {ns}, linkInsideAll path ms = .ok ns → linkInsideAll path ns = .ok ns)
    (h : linkAll path ms = .ok ms') : linkAll path ms' = .ok ms' := by
  obtain ⟨headers, hheaders, h⟩ := bind_eq_ok_iff.1 h
  obtain ⟨ns, hns, h⟩ := bind_eq_ok_iff.1 h
  cases h
  have hagain : linkSiblings path ((headers.zipWith withHeader ns).map asSibling) =
      .ok headers := by
    rw [map_asSibling_zipWith, map_asSibling_linkInsideAll hns]
    exact linkSiblings_linkSiblings hheaders
  have hnames := map_name_linkInsideAll hheaders hns
  rw [linkAll, hagain, linkInsideAll_zipWith_withHeader hnames, inside hns]
  exact congrArg Except.ok (zipWith_zipWith_self withHeader_withHeader headers ns)

mutual

theorem linkInside_linkInside (path : NodePath) :
    ∀ {m m' : Member}, m.linkInside path = .ok m' → m'.linkInside path = .ok m'
  | .register r, _, h => by
      cases h
      rfl
  | .cluster c ms, _, h => by
      rw [linkInside_cluster] at h
      obtain ⟨ms', hms', rfl⟩ := map_eq_ok_iff.1 h
      rw [linkInside_cluster, linkAll_linkAll (linkInsideAll_linkInsideAll path) hms']
      rfl

theorem linkInsideAll_linkInsideAll (path : NodePath) :
    ∀ {ms ms' : List Member}, linkInsideAll path ms = .ok ms' → linkInsideAll path ms' = .ok ms'
  | [], _, h => by
      cases h
      rfl
  | m :: ms, _, h => by
      unfold linkInsideAll at h
      obtain ⟨rest, hrest, h⟩ := bind_eq_ok_iff.1 h
      obtain ⟨m', hm', h⟩ := bind_eq_ok_iff.1 h
      cases h
      have hname : m'.name = m.name := congrArg (·.header.name) (asSibling_linkInside hm')
      rw [linkInsideAll, linkInsideAll_linkInsideAll path hrest, hname]
      change (do return (← linkInside (path.child m.name) m') :: rest) = _
      rw [linkInside_linkInside _ hm']
      rfl

end

end Member

theorem Peripheral.linkInside_linkInside {path : NodePath} {p q : Peripheral}
    (h : p.linkInside path = .ok q) (header : Header) :
    linkInside path { q with toHeader := header } = .ok { q with toHeader := header } := by
  unfold Peripheral.linkInside at *
  split at h
  · next hnone =>
    cases h
    dsimp only
    rw [hnone]
  · next ms hms =>
    obtain ⟨ms', hms', h⟩ := bind_eq_ok_iff.1 h
    cases h
    dsimp only
    rw [Member.linkAll_linkAll (Member.linkInsideAll_linkInsideAll path) hms']
    rfl

/-- A device whose alternates are resolved stays the same when they are resolved again. -/
theorem Device.resolveAlternates_resolveAlternates {d d' : Device}
    (pass : d.resolveAlternates.result = .ok d') : d'.resolveAlternates.result = .ok d' := by
  obtain ⟨headers, hheaders, h⟩ := Logged.bind_eq_ok_iff.1 pass
  obtain ⟨inside, hinside, h⟩ := Logged.bind_eq_ok_iff.1 h
  cases h
  obtain ⟨own, hown, rfl⟩ := foldrM_cons_eq_ok_iff.1 hinside
  rw [List.append_nil]
  have hsiblings := Peripheral.map_asSibling_linkInside hown
  have hagain : linkSiblings d.path ((headers.zipWith
      (fun h (p : Peripheral) => { p with toHeader := h }) own).map Peripheral.asSibling) =
        .ok headers := by
    have hlinked := linkSiblings_linkSiblings hheaders
    rw [hsiblings, List.zipWith_map_right] at hlinked
    rw [List.map_zipWith]
    exact hlinked
  have hinside : ∀ p ∈ headers.zipWith (fun h (p : Peripheral) => { p with toHeader := h }) own,
      p.linkInside (d.path.child p.name) = .ok p := by
    intro p' hp'
    have hpaired := forall₂_zipWith (T := fun _ p' : Peripheral =>
      p'.linkInside (d.path.child p'.name) = .ok p') (forall₂_names hheaders) hown
      (f := fun h p => { p with toHeader := h }) fun p header q hname hq => by
        have hpath : d.path.child header.name = d.path.child p.name :=
          congrArg d.path.child hname
        rw [← hpath] at hq
        exact Peripheral.linkInside_linkInside hq header
    obtain ⟨p, -, h⟩ := exists_mem_left hpaired hp'
    exact h
  rw [resolveAlternates, Logged.bind_eq_ok_iff]
  refine ⟨headers, hagain, ?_⟩
  rw [Logged.bind_eq_ok_iff]
  refine ⟨_, foldrM_cons_eq_ok_iff.2 ⟨_, List.forall₂_same.2 hinside, rfl⟩, ?_⟩
  rw [List.append_nil]
  have hsame := zipWith_zipWith_self (f := fun h (p : Peripheral) => { p with toHeader := h })
    (fun _ _ => rfl) headers own
  exact congrArg (fun ps => Except.ok { d with peripherals := ps }) hsame

/-! ### Addresses -/

/-- If the member is a register, it can be placed: it has a size and a reset value, and all its
fields lie in it. -/
def Member.Sound (m : Member) : Prop :=
  m.kind = .register → ∃ size, m.header.effective.size = some size ∧ 0 < size ∧
    m.header.effective.resetValue.isSome ∧
    ∀ f ∈ m.fieldList, ∃ range, f.bitRange = some range ∧ range.msb < size

theorem Member.sound_cluster (c : Cluster) (ms : List Member) : (Member.cluster c ms).Sound :=
  nofun

theorem Register.check_eq_ok_iff {path : NodePath} {r : Register} :
    r.check path = .ok () ↔ (Member.register r).Sound := by
  constructor
  · intro h _
    obtain ⟨size, hsize, h⟩ := bind_eq_ok_iff.1 h
    obtain ⟨hgiven, hpos⟩ := Register.size_eq_ok_iff.1 hsize
    split at h
    · cases h
    · next hreset =>
      have hsome : r.effective.resetValue.isSome := by
        simpa [Option.isSome_iff_ne_none] using hreset
      refine ⟨size, hgiven, hpos, hsome, fun f hf => ?_⟩
      have hinside := forM_eq_ok_iff.1 h f hf
      split at hinside
      · cases hinside
      · next range hrange => exact ⟨range, hrange, by_contra fun hmsb => by simp [hmsb] at hinside⟩
  · intro h
    obtain ⟨size, hgiven, hpos, hreset, h⟩ := h rfl
    have hsome : r.effective.resetValue.isSome := hreset
    have hreset : ¬ r.effective.resetValue.isNone := by
      simpa [Option.isSome_iff_ne_none] using hsome
    refine bind_eq_ok_iff.2 ⟨size, Register.size_eq_ok_iff.2 ⟨hgiven, hpos⟩, ?_⟩
    rw [if_neg hreset]
    refine forM_eq_ok_iff.2 fun f hf => ?_
    obtain ⟨range, hrange, hmsb⟩ := h f hf
    simp [hrange, hmsb]

namespace Member

mutual

theorem placeAt_placeAt (base : Int) : ∀ m : Member, placeAt base (placeAt base m) = placeAt base m
  | .register _ => rfl
  | .cluster c ms => by
      have hinside := placeAllAt_placeAllAt (base + c.offset.getD 0) ms
      simp only [placeAt, hinside]

theorem placeAllAt_placeAllAt (base : Int) :
    ∀ ms : List Member, placeAllAt base (placeAllAt base ms) = placeAllAt base ms
  | [] => rfl
  | m :: ms => by
      rw [placeAllAt, placeAllAt, placeAt_placeAt base m, placeAllAt_placeAllAt base ms]

end

end Member

theorem Peripheral.placeAll_placeAll (p : Peripheral) : p.placeAll.placeAll = p.placeAll := by
  unfold placeAll
  cases p.members with
  | none => rfl
  | some ms =>
      simp only [Option.map_some, Member.placeAllAt_placeAllAt]

namespace Device

variable {d d' : Device}

theorem placeAll_placeAll (d : Device) : d.placeAll.placeAll = d.placeAll := by
  simp only [placeAll, List.map_map, Function.comp_def, Peripheral.placeAll_placeAll]

/-- What is asked of a device before it is placed is asked of each element for itself. -/
theorem checks_eq_ok_iff :
    d.checkBaseAddresses = .ok () ∧ d.checkOffsets = .ok () ∧ d.checkRegisters = .ok () ↔
      Member.EachAll (fun m => m.offset.isSome ∧ m.Sound) d.elements := by
  have hall : Member.EachAll (fun m => m.offset.isSome ∧ m.Sound) d.elements ↔
      ∀ p ∈ d.peripherals, p.baseAddress.isSome ∧
        ∀ e ∈ (Member.levelsAll (d.path.child p.name) p.memberList).flatten,
          e.2.offset.isSome ∧ e.2.Sound := by
    rw [Member.eachAll_iff, elements, List.forall_mem_map]
    refine forall₂_congr fun p _ => ?_
    rw [← Member.eachAll_iff_forall_levels (P := fun m => m.offset.isSome ∧ m.Sound)]
    exact and_congr_left' (and_iff_left (Member.sound_cluster _ _))
  have hsound (m : Member) (path : NodePath) :
      m.Sound ↔ ∀ r, m = .register r → r.check path = .ok () := by
    cases m with
    | register r => simp [Register.check_eq_ok_iff]
    | cluster c ms => exact iff_of_true (Member.sound_cluster c ms) fun r h => by cases h
  rw [checkBaseAddresses_eq_ok_iff, checkOffsets_eq_ok_iff, checkRegisters_eq_ok_iff, hall]
  constructor
  · rintro ⟨hbase, hoffsets, hregisters⟩ p hp
    exact ⟨hbase p hp, fun e he =>
      ⟨hoffsets p hp e he, (hsound e.2 e.1).2 (hregisters p hp e he)⟩⟩
  · intro h
    exact ⟨fun p hp => (h p hp).1, fun p hp e he => ((h p hp).2 e he).1,
      fun p hp e he => (hsound e.2 e.1).1 ((h p hp).2 e he).2⟩

/-- A device that is placed stays the same when it is placed again. -/
theorem resolveAddresses_resolveAddresses {tolerant : Bool}
    (pass : (d.resolveAddresses tolerant).result = .ok d') :
    (d'.resolveAddresses tolerant).result = .ok d' := by
  obtain ⟨⟨⟩, hbase, h⟩ := Logged.bind_eq_ok_iff.1 pass
  obtain ⟨⟨⟩, hoffsets, h⟩ := Logged.bind_eq_ok_iff.1 h
  obtain ⟨⟨⟩, hregisters, h⟩ := Logged.bind_eq_ok_iff.1 h
  obtain ⟨⟨⟩, hgroups, h⟩ := Logged.bind_eq_ok_iff.1 h
  cases h
  have hplaced : Member.EachAll (fun m => m.offset.isSome ∧ m.Sound) d.placeAll.elements := by
    refine Member.EachAll.of_alike (fun m m' hR _ hm => ?_) _ d.alikeAll_placeAll
      (checks_eq_ok_iff.1 ⟨hbase, hoffsets, hregisters⟩)
    refine ⟨hR.offset ▸ hm.1, fun hkind => ?_⟩
    rw [hR.own (·.effective) fun _ _ _ => rfl, hR.fieldList]
    exact hm.2 (hR.kind ▸ hkind)
  obtain ⟨hbase, hoffsets, hregisters⟩ := checks_eq_ok_iff.2 hplaced
  rw [← placeAll_placeAll d] at hgroups
  rw [resolveAddresses, Logged.bind_eq_ok_iff]
  refine ⟨(), hbase, ?_⟩
  rw [Logged.bind_eq_ok_iff]
  refine ⟨(), hoffsets, ?_⟩
  rw [Logged.bind_eq_ok_iff]
  refine ⟨(), hregisters, ?_⟩
  rw [Logged.bind_eq_ok_iff]
  exact ⟨(), hgroups, congrArg Except.ok (placeAll_placeAll d)⟩

end Device

/-! ### Passes of a run -/

/-- Each pass of a run that has succeeded succeeds again on what it has given, and changes
nothing. -/
theorem reaches_repeats (config : Config) (root : Element) :
    (∀ d d', Reaches config root .built d → d.resolveDerivations.result = .ok d' →
      d'.resolveDerivations.result = .ok d') ∧
    (∀ d d', Reaches config root .derived d → d.expand.result = .ok d' →
      d'.expand.result = .ok d') ∧
    (∀ d d', Reaches config root .expanded d → (d.exclude config.excluded).result = .ok d' →
      (d'.exclude config.excluded).result = .ok d') ∧
    (∀ d d', Reaches config root .reduced d → d.resolveAlternates.result = .ok d' →
      d'.resolveAlternates.result = .ok d') ∧
    (∀ d d', Reaches config root .linked d →
      (d.resolveAddresses config.tolerateOverlaps).result = .ok d' →
        (d'.resolveAddresses config.tolerateOverlaps).result = .ok d') := by
  refine ⟨fun d d' before pass => ?_, fun d d' _ pass => ?_, fun d d' _ pass => ?_,
    fun d d' _ pass => ?_, fun d d' _ pass => ?_⟩
  · exact (Device.underived_of_resolveDerivations before.settled pass).resolveDerivations
  · exact Device.expand_of_plain (Device.plain_of_expand pass) (Device.distinct_of_expand pass)
  · exact Device.exclude_of_exclude pass
  · exact Device.resolveAlternates_resolveAlternates pass
  · exact Device.resolveAddresses_resolveAddresses pass

open Element in
/-- A derived array of peripherals, with an array of registers, a derived register and one that is
another view of it. -/
def repeatedRoot : Element :=
  node "device" [leaf "name" "D", leaf "size" "8", leaf "resetValue" "0", node "peripherals" [
    node "peripheral" [leaf "name" "P", leaf "baseAddress" "16", node "registers" [
      node "register" [leaf "dim" "2", leaf "dimIncrement" "1", leaf "name" "A%s",
        leaf "addressOffset" "0"],
      { node "register" [leaf "name" "B", leaf "addressOffset" "2"] with
        attributes := [("derivedFrom", "A%s")] },
      node "register" [leaf "name" "C", leaf "alternateRegister" "B",
        leaf "addressOffset" "2"]]],
    { node "peripheral" [leaf "dim" "2", leaf "dimIncrement" "16", leaf "name" "Q%s",
        leaf "baseAddress" "32"] with attributes := [("derivedFrom", "P")] }]]

/-- Every pass has something to do, and nothing more when it is run again. -/
theorem reaches_repeats_derived :
    let config : Config := { tolerateOverlaps := true, excluded := ["Q0"] }
    ∃ built derived expanded reduced linked placed : Device,
      Reaches config repeatedRoot .built built ∧
      (built.resolveDerivations.result = .ok derived ∧
        derived.resolveDerivations.result = .ok derived) ∧
      (derived.expand.result = .ok expanded ∧ expanded.expand.result = .ok expanded) ∧
      ((expanded.exclude config.excluded).result = .ok reduced ∧
        (reduced.exclude config.excluded).result = .ok reduced) ∧
      (reduced.resolveAlternates.result = .ok linked ∧
        linked.resolveAlternates.result = .ok linked) ∧
      ((linked.resolveAddresses config.tolerateOverlaps).result = .ok placed ∧
        (placed.resolveAddresses config.tolerateOverlaps).result = .ok placed) ∧
      placed.peripherals.map (fun p => (p.name, p.address,
        p.memberList.map fun m => (m.name, m.header.address))) =
        [("P", some 16, [("A0", some 16), ("A1", some 17), ("B", some 18), ("C", some 18)]),
          ("Q1", some 48, [("A0", some 48), ("A1", some 49), ("B", some 50), ("C", some 50)])] := by
  intro config
  have hrun : (buildDevice repeatedRoot).result.toOption.any fun built =>
      built.resolveDerivations.result.toOption.any fun derived =>
        derived.expand.result.toOption.any fun expanded =>
          (expanded.exclude config.excluded).result.toOption.any fun reduced =>
            reduced.resolveAlternates.result.toOption.any fun linked =>
              (linked.resolveAddresses config.tolerateOverlaps).result.toOption.any fun placed =>
                placed.peripherals.map (fun p => (p.name, p.address,
                  p.memberList.map fun m => (m.name, m.header.address))) =
                    [("P", some 16, [("A0", some 16), ("A1", some 17), ("B", some 18),
                        ("C", some 18)]),
                      ("Q1", some 48, [("A0", some 48), ("A1", some 49), ("B", some 50),
                        ("C", some 50)])] := by
    decide +kernel
  obtain ⟨built, hbuilt, h⟩ := exists_ok_of_any hrun
  obtain ⟨derived, hderived, h⟩ := exists_ok_of_any h
  obtain ⟨expanded, hexpanded, h⟩ := exists_ok_of_any h
  obtain ⟨reduced, hreduced, h⟩ := exists_ok_of_any h
  obtain ⟨linked, hlinked, h⟩ := exists_ok_of_any h
  obtain ⟨placed, hplaced, h⟩ := exists_ok_of_any h
  obtain ⟨derive, expand, exclude, link, place⟩ := reaches_repeats config repeatedRoot
  have reachesBuilt : Reaches config repeatedRoot .built built := .build hbuilt
  have reachesDerived : Reaches config repeatedRoot .derived derived :=
    .derive reachesBuilt hderived
  have reachesExpanded : Reaches config repeatedRoot .expanded expanded :=
    .expand reachesDerived hexpanded
  have reachesReduced : Reaches config repeatedRoot .reduced reduced :=
    .exclude reachesExpanded hreduced
  have reachesLinked : Reaches config repeatedRoot .linked linked := .link reachesReduced hlinked
  exact ⟨built, derived, expanded, reduced, linked, placed, reachesBuilt,
    ⟨hderived, derive _ _ reachesBuilt hderived⟩,
    ⟨hexpanded, expand _ _ reachesDerived hexpanded⟩,
    ⟨hreduced, exclude _ _ reachesExpanded hreduced⟩,
    ⟨hlinked, link _ _ reachesReduced hlinked⟩,
    ⟨hplaced, place _ _ reachesLinked hplaced⟩, of_decide_eq_true h⟩

end RegisterMap.Draft
