import RegisterMap.Proofs.Addresses
import RegisterMap.Proofs.Defaults
import RegisterMap.Proofs.Elements
import RegisterMap.Proofs.RegisterDerivation

/-!
# Access to registers and fields

A register has the access that is in effect for it. If none is, the fields decide: they have to
agree on an access that all of them give for themselves, and otherwise the register can be read and
written (`Register.Grants`). A field has its own access, or else that of its register.

The registers of a device are those of its placed draft, one by one and in the same order
(`Device.registerEntries`). What the draft says of a register there goes back to the registers on
its chain of derivations, and to the elements around them (`parse_grants_access`).
-/

namespace RegisterMap

namespace Draft

/-! ### Granted access -/

/-- The access that is granted to a register: the one in effect for it, or else the one that all of
its fields give for themselves, or else reading and writing. -/
inductive Register.Grants (r : Register) : Access → Prop
  | given {a : Access} (effective : r.effective.access = some a) : Grants r a
  | shared {a : Access} (effective : r.effective.access = none) (nonempty : r.fieldList ≠ [])
      (all : ∀ f ∈ r.fieldList, f.access = some a) : Grants r a
  | unrestricted (effective : r.effective.access = none)
      (unshared : ∀ a, r.fieldList ≠ [] → ∃ f ∈ r.fieldList, f.access ≠ some a) :
      Grants r .readWrite

/-- The fields give the same access rights for themselves, in any order and any number of times. -/
def GiveSameAccess (fs fs' : List Field) : Prop :=
  ∀ given, (∃ f ∈ fs, f.access = given) ↔ ∃ f ∈ fs', f.access = given

theorem sharedAccess_eq {fs : List Field} {a : Access} (nonempty : fs ≠ [])
    (all : ∀ f ∈ fs, f.access = some a) : sharedAccess fs = a := by
  cases fs with
  | nil => exact absurd rfl nonempty
  | cons f fs =>
      rw [List.forall_mem_cons] at all
      have hrest : (fs.map (·.access)).all (· == some a) := by simpa using all.2
      rw [sharedAccess, List.map_cons, all.1]
      exact if_pos hrest

theorem sharedAccess_eq_readWrite {fs : List Field}
    (unshared : ∀ a, fs ≠ [] → ∃ f ∈ fs, f.access ≠ some a) : sharedAccess fs = .readWrite := by
  cases fs with
  | nil => rfl
  | cons f fs =>
      rw [sharedAccess, List.map_cons]
      cases hf : f.access with
      | none => rfl
      | some a =>
          obtain ⟨g, hg, hne⟩ := unshared a (List.cons_ne_nil f fs)
          have hrest : ¬ (fs.map (·.access)).all (· == some a) := by
            rcases List.mem_cons.1 hg with rfl | hg
            · exact absurd hf hne
            · simpa using ⟨g, hg, hne⟩
          exact if_neg hrest

namespace Register

variable {r r' : Register} {a : Access}

/-- Exactly one access is granted to a register, and the register of the device has it. -/
theorem grants_iff : r.Grants a ↔ registerAccess r = a := by
  constructor
  · rintro (heffective | ⟨heffective, hnonempty, hall⟩ | ⟨heffective, hunshared⟩)
    · rw [registerAccess, heffective, Option.getD_some]
    · rw [registerAccess, heffective, Option.getD_none, sharedAccess_eq hnonempty hall]
    · rw [registerAccess, heffective, Option.getD_none, sharedAccess_eq_readWrite hunshared]
  · rintro rfl
    cases heffective : r.effective.access with
    | some a =>
        rw [registerAccess, heffective]
        exact .given heffective
    | none =>
        rw [registerAccess, heffective, Option.getD_none]
        by_cases hshared : ∃ a, r.fieldList ≠ [] ∧ ∀ f ∈ r.fieldList, f.access = some a
        · obtain ⟨a, hnonempty, hall⟩ := hshared
          rw [sharedAccess_eq hnonempty hall]
          exact .shared heffective hnonempty hall
        · push Not at hshared
          rw [sharedAccess_eq_readWrite hshared]
          exact .unrestricted heffective hshared

/-- What is granted to a register does not depend on the order or the number of its fields. -/
theorem Grants.congr (h : r.Grants a) (effective : r'.effective.access = r.effective.access)
    (same : GiveSameAccess r.fieldList r'.fieldList) : r'.Grants a := by
  have hnonempty : r.fieldList ≠ [] ↔ r'.fieldList ≠ [] := by
    have hsome (fs : List Field) : fs ≠ [] ↔ ∃ given, ∃ f ∈ fs, f.access = given := by
      cases fs <;> simp
    rw [hsome, hsome]
    exact exists_congr same
  cases h with
  | given heffective => exact .given (effective.trans heffective)
  | shared heffective nonempty all =>
      refine .shared (effective.trans heffective) (hnonempty.1 nonempty) fun f hf => ?_
      obtain ⟨g, hg, heq⟩ := (same f.access).2 ⟨f, hf, rfl⟩
      rw [← heq, all g hg]
  | unrestricted heffective unshared =>
      refine .unrestricted (effective.trans heffective) fun a nonempty => ?_
      obtain ⟨f, hf, hne⟩ := unshared a (hnonempty.2 nonempty)
      obtain ⟨g, hg, heq⟩ := (same f.access).1 ⟨f, hf, rfl⟩
      exact ⟨g, hg, heq ▸ hne⟩

end Register

/-! ### Registers at their places -/

/-- A register of a draft, the clusters around it from the inside out, its peripheral and its
path. -/
structure RegisterEntry where
  peripheral : Peripheral
  clusters : List Cluster
  path : NodePath
  register : Register

mutual

/-- The registers in the member at a path, which has the given elements around it. -/
def Member.registerEntries (p : Peripheral) (around : List Cluster) (path : NodePath) :
    Member → List RegisterEntry
  | .register r => [⟨p, around, path, r⟩]
  | .cluster c ms => Member.registerEntriesAll p (c :: around) path ms

/-- The registers in the members of the element at a path. -/
def Member.registerEntriesAll (p : Peripheral) (around : List Cluster) (path : NodePath) :
    List Member → List RegisterEntry
  | [] => []
  | m :: ms =>
    Member.registerEntries p around (path.child m.name) m ++
      Member.registerEntriesAll p around path ms

end

/-- The registers of the device, in the order of declaration. -/
def Device.registerEntries (d : Device) : List RegisterEntry :=
  d.peripherals.flatMap fun p => Member.registerEntriesAll p [] (d.path.child p.name) p.memberList

namespace Member

variable {p : Peripheral} {e : RegisterEntry} {P : Member → Prop}

theorem Holds.mono {ms ns : List Member} {cs : List Cluster} {r : Register} (h : Holds ms cs r)
    (sub : ∀ m ∈ ms, m ∈ ns) : Holds ns cs r := by
  cases h with
  | here mem => exact .here (sub _ mem)
  | inside mem rest => exact .inside (sub _ mem) rest

theorem Holds.each {ms : List Member} {cs : List Cluster} {r : Register} (h : Holds ms cs r)
    (all : EachAll P ms) : P (.register r) := by
  induction h with
  | here mem => exact eachAll_iff.1 all _ mem
  | inside mem rest ih => exact ih (eachAll_iff.1 all _ mem).2

mutual

theorem holds_of_mem_registerEntries (around : List Cluster) (path : NodePath) :
    ∀ m : Member, e ∈ m.registerEntries p around path →
      e.peripheral = p ∧ ∃ cs, e.clusters = cs ++ around ∧ Holds [m] cs e.register
  | .register r, he => by
      obtain rfl := List.mem_singleton.1 he
      exact ⟨rfl, [], rfl, .here (List.mem_singleton_self _)⟩
  | .cluster c ms, he => by
      obtain ⟨hp, cs, hcs, hholds⟩ := holds_of_mem_registerEntriesAll (c :: around) path ms he
      refine ⟨hp, cs ++ [c], ?_, .inside (List.mem_singleton_self _) hholds⟩
      rw [hcs, List.append_assoc, List.singleton_append]

theorem holds_of_mem_registerEntriesAll (around : List Cluster) (path : NodePath) :
    ∀ ms : List Member, e ∈ registerEntriesAll p around path ms →
      e.peripheral = p ∧ ∃ cs, e.clusters = cs ++ around ∧ Holds ms cs e.register
  | [], he => absurd he List.not_mem_nil
  | m :: ms, he => by
      rcases List.mem_append.1 he with he | he
      · obtain ⟨hp, cs, hcs, hholds⟩ := holds_of_mem_registerEntries around (path.child m.name) m he
        exact ⟨hp, cs, hcs, hholds.mono (by simp)⟩
      · obtain ⟨hp, cs, hcs, hholds⟩ := holds_of_mem_registerEntriesAll around path ms he
        exact ⟨hp, cs, hcs, hholds.mono fun m hm => List.mem_cons_of_mem _ hm⟩

end

end Member

namespace Device

variable {d : Device} {e : RegisterEntry}

/-- An entry names the peripheral and the clusters around its register. -/
theorem holds_of_mem_registerEntries (he : e ∈ d.registerEntries) : e.peripheral ∈ d.peripherals ∧
    Member.Holds e.peripheral.memberList e.clusters e.register := by
  obtain ⟨p, hp, he⟩ := List.mem_flatMap.1 he
  obtain ⟨rfl, cs, hcs, hholds⟩ := Member.holds_of_mem_registerEntriesAll [] _ _ he
  rw [List.append_nil] at hcs
  exact ⟨hp, hcs ▸ hholds⟩

/-- The properties in effect for a register are the first ones given by it, a cluster around it, its
peripheral or the device. -/
theorem Inherits.effective_registerEntry (h : d.Inherits) (he : e ∈ d.registerEntries) :
    e.register.effective = .firstGiven
      (e.register.props :: e.clusters.map (·.props) ++ [e.peripheral.props, d.props]) :=
  h.effective (holds_of_mem_registerEntries he).1 (holds_of_mem_registerEntries he).2

/-- What holds of every element of the device holds of the registers at all places. -/
theorem each_registerEntry {P : Member → Prop} (h : Member.EachAll P d.elements)
    (he : e ∈ d.registerEntries) : P (.register e.register) := by
  obtain ⟨hp, hholds⟩ := holds_of_mem_registerEntries he
  exact hholds.each (Member.eachAll_iff.1 h _ (List.mem_map_of_mem hp)).2

end Device

/-! ### Where the access comes from -/

/-- The properties in effect for the register, and its fields, are those of a chain of derivations:
the properties given on it, followed by those around its registers from the last one back to the
first, and the first fields on it, with the arrays among them expanded. -/
structure Register.StemsFrom (chain : List Register) (r : Register) : Prop where
  effective : r.effective =
    .firstGiven (chain.map (·.props) ++ chain.reverse.map (·.defaults))
  fieldList : r.fieldList = ((chain.findSome? (·.fields)).getD []).flatMap replacements

theorem Register.stemsFrom_expanded (r : Register) (bases : List Register) :
    (r.deriveAlong bases).expanded.StemsFrom (r :: bases) := by
  have hfields : (r.deriveAlong bases).fields = (r :: bases).findSome? (·.fields) :=
    eq_findSome?_of_takeOver (fun _ => rfl) (fun _ _ _ => rfl) r bases
  refine ⟨r.effective_deriveAlong bases, ?_⟩
  rw [Register.fieldList, Register.expanded, hfields]
  cases (r :: bases).findSome? (·.fields) <;> rfl

/-- A chain of derivations in the device satisfies the condition. -/
def Device.SomeChain (d : Device) (P : List Register → Prop) : Prop :=
  ∃ s ∈ d.sites, ∃ bases, d.DerivesAlong s bases ∧ P ((s :: bases).map (·.register))

/-- The member, if it is a register, stems from a chain of derivations in the device. -/
def Member.Stems (d : Device) : Member → Prop
  | .register r => d.SomeChain fun chain => r.StemsFrom chain
  | .cluster _ _ => True

/-- The member, if it is a register, is what a chain of derivations in the device comes to. -/
def Member.Derived (d : Device) : Member → Prop
  | .register r => d.SomeChain fun chain => ∃ s bases, chain = s :: bases ∧ r = s.deriveAlong bases
  | .cluster _ _ => True

variable {middle d d' : Device}

theorem Device.derived_deriveRegisters {n : Nat} (h : middle.deriveRegisters = .ok (d, n)) :
    Member.EachAll (Member.Derived middle) d.elements := by
  obtain ⟨f, rfl, hf⟩ := deriveRegisters_eq_ok h
  have halike := alikeAll_mapRegisters (d := middle) (f := f)
    (S := fun _ r' => (Member.register r').Derived middle) fun s hs => by
      obtain ⟨bases, hchain, hr⟩ := exists_chain_of_deriveRegister (hf s hs)
      exact ⟨s, hs, bases, hchain, _, _, rfl, hr⟩
  -- What a register comes to is known from its replacement alone, whatever held of it before.
  have htrivial : Member.EachAll (fun _ => True) middle.elements :=
    (Member.eachAll_iff_forall_levels default _).2 fun _ _ => trivial
  refine Member.EachAll.of_alike (fun m m' hreplaces _ _ => ?_) _ halike htrivial
  cases m' with
  | cluster c' ms' => trivial
  | register r' =>
      cases m with
      | register r => exact hreplaces
      | cluster c ms => exact hreplaces.elim

theorem Member.Derived.expanded {m : Member} (h : m.Derived middle) :
    m.expanded.Stems middle := by
  cases m with
  | cluster c ms => trivial
  | register r =>
      obtain ⟨s, hs, bases, hchain, _, _, hsplit, rfl⟩ := h
      refine ⟨s, hs, bases, hchain, ?_⟩
      rw [hsplit]
      exact Register.stemsFrom_expanded _ _

theorem Member.Stems.place {m : Member} (h : m.Stems middle) (i : Instance) :
    (Draft.place m (some i)).Stems middle := by
  cases m with
  | cluster c ms => trivial
  | register r =>
      obtain ⟨s, hs, bases, hchain, hstems⟩ := h
      exact ⟨s, hs, bases, hchain, hstems.effective, hstems.fieldList⟩

theorem Member.Stems.of_resembles {m m' : Member} (h : m.Stems middle)
    (alike : m.Resembles m') : m'.Stems middle := by
  cases m' with
  | cluster c' ms' => trivial
  | register r' =>
      cases m with
      | cluster c ms => cases alike.kind
      | register r =>
          obtain ⟨s, hs, bases, hchain, hstems⟩ := h
          have heffective : r'.effective = r.effective := alike.own (·.effective) fun _ _ _ => rfl
          exact ⟨s, hs, bases, hchain, heffective.trans hstems.effective,
            alike.fieldList.trans hstems.fieldList⟩

theorem Device.stems_of_resembles (h : Member.EachAll (Member.Stems middle) d.elements)
    (alike : Member.AlikeAll Member.Resembles d.elements d'.elements) :
    Member.EachAll (Member.Stems middle) d'.elements :=
  Member.EachAll.of_alike (fun _ _ hR _ hm => Member.Stems.of_resembles hm hR) _ alike h

theorem Device.stems_expand {built expanded : Device}
    (derive : built.resolveDerivations.result = .ok d)
    (expand : d.expand.result = .ok expanded) :
    ∃ middle n, built.derivePeripherals = .ok (middle, n) ∧
      Member.EachAll (Member.Stems middle) expanded.elements := by
  obtain ⟨⟨middle, n⟩, hmiddle, derive⟩ := Logged.bind_eq_ok_iff.1 derive
  obtain ⟨⟨derived, k⟩, hregisters, derive⟩ := Logged.bind_eq_ok_iff.1 derive
  cases derive
  refine ⟨middle, n, hmiddle, ?_⟩
  rw [Device.elements_expand expand]
  exact Member.eachAll_expandedAll (fun _ => Member.Derived.expanded)
    (fun _ i hm => Member.Stems.place hm i) _ (Device.derived_deriveRegisters hregisters)

/-- Once arrays are expanded, the registers of a draft stem from the device as it is when its
peripherals have been derived. -/
theorem Reaches.exists_stems {config : Config} {root : Element} {stage : Stage}
    (h : Reaches config root stage d) (later : stage ≠ .built ∧ stage ≠ .derived) :
    ∃ built middle n, Reaches config root .built built ∧
      built.derivePeripherals = .ok (middle, n) ∧
      Member.EachAll (Member.Stems middle) d.elements := by
  -- Expansion sets the stems; the passes behind it keep the properties and the fields of registers.
  induction h with
  | build => exact absurd rfl later.1
  | derive => exact absurd rfl later.2
  | expand before pass =>
      cases before with
      | derive hbuilt derive =>
          obtain ⟨middle, n, hmiddle, hstems⟩ := Device.stems_expand derive pass
          exact ⟨_, middle, n, hbuilt, hmiddle, hstems⟩
  | exclude _ pass ih =>
      cases pass
      obtain ⟨built, middle, n, hbuilt, hmiddle, hstems⟩ := ih ⟨nofun, nofun⟩
      refine ⟨built, middle, n, hbuilt, hmiddle, Member.eachAll_iff.2 fun m hm => ?_⟩
      exact Member.eachAll_iff.1 hstems m (Device.mem_elements_without hm)
  | link _ pass ih =>
      obtain ⟨built, middle, n, hbuilt, hmiddle, hstems⟩ := ih ⟨nofun, nofun⟩
      exact ⟨built, middle, n, hbuilt, hmiddle,
        Device.stems_of_resembles hstems (Device.alikeAll_resolveAlternates pass).1⟩
  | @place linked _ _ pass ih =>
      obtain ⟨built, middle, n, hbuilt, hmiddle, hstems⟩ := ih ⟨nofun, nofun⟩
      rw [Device.resolveAddresses_eq_ok pass]
      exact ⟨built, middle, n, hbuilt, hmiddle,
        Device.stems_of_resembles hstems linked.alikeAll_placeAll⟩

end Draft

/-! ### Registers of a device -/

/-- The register has the path of an entry of a draft and the access that is granted there, which any
other fields that give the same access rights would have brought about as well. Each of its fields
has the access that it gives for itself, or else that of the register. -/
structure Register.Follows (e : Draft.RegisterEntry) (r : Register) : Prop where
  path : r.path = e.path
  granted : e.register.Grants r.access
  independent : ∀ fields, Draft.GiveSameAccess e.register.fieldList fields →
    registerAccess { e.register with fields := some fields } = r.access
  fields : List.Forall₂ (fun df f => f.path = e.path.child df.name ∧
    f.access = df.access.getD r.access) e.register.fieldList r.fields

namespace Register

variable {e : Draft.RegisterEntry} {r r' : Register}

theorem follows_ofDraft (h : ofDraft e.path e.register = .ok r) : r.Follows e := by
  obtain ⟨offset, -, h⟩ := bind_eq_ok_iff.1 h
  obtain ⟨size, -, h⟩ := bind_eq_ok_iff.1 h
  obtain ⟨resetValue, -, h⟩ := bind_eq_ok_iff.1 h
  obtain ⟨address, -, h⟩ := bind_eq_ok_iff.1 h
  obtain ⟨fields, hfields, h⟩ := bind_eq_ok_iff.1 h
  cases h
  have hgrants : e.register.Grants (registerAccess e.register) := Draft.Register.grants_iff.2 rfl
  refine ⟨rfl, hgrants, fun fields hsame => ?_, ?_⟩
  · exact Draft.Register.grants_iff.1 (hgrants.congr rfl hsame)
  · refine (makeNamed_eq_ok_iff.1 hfields).1.imp fun df f hf => ?_
    obtain ⟨range, -, hf⟩ := bind_eq_ok_iff.1 hf
    obtain ⟨enums, -, hf⟩ := bind_eq_ok_iff.1 hf
    cases hf
    exact ⟨rfl, rfl⟩

theorem Follows.withAliases {regions : List BitBand.ConfiguredRegion} (follows : r.Follows e)
    (h : r.withAliases regions = .ok r') : r'.Follows e := by
  have haccess : r'.access = r.access := by rw [Member.withAliases_register h]
  have hpath : r'.path = r.path := by rw [Member.withAliases_register h]
  refine ⟨hpath.trans follows.path, haccess ▸ follows.granted,
    haccess ▸ follows.independent, ?_⟩
  refine forall₂_trans follows.fields (fields_withAliases h) fun df f f' hf heq => ?_
  rw [heq, haccess]
  exact hf

end Register

namespace Member

variable (p : Draft.Peripheral)

mutual

theorem follows_ofDraft (around : List Draft.Cluster) (path : NodePath) :
    ∀ (dm : Draft.Member) {m : Member}, ofDraft path dm = .ok m →
      List.Forall₂ (fun e r => r.Follows e) (dm.registerEntries p around path) m.registers
  | .register dr, m, h => by
      obtain ⟨r, hr, h⟩ := bind_eq_ok_iff.1 h
      cases h
      exact .cons (Register.follows_ofDraft hr) .nil
  | .cluster dc dms, m, h => by
      obtain ⟨c, -, h⟩ := bind_eq_ok_iff.1 h
      obtain ⟨ms, hms, h⟩ := bind_eq_ok_iff.1 h
      obtain ⟨_, -, h⟩ := bind_eq_ok_iff.1 h
      cases h
      exact follows_ofDraftAll (dc :: around) path dms hms

theorem follows_ofDraftAll (around : List Draft.Cluster) (path : NodePath) :
    ∀ (dms : List Draft.Member) {ms : List Member}, ofDraftAll path dms = .ok ms →
      List.Forall₂ (fun e r => r.Follows e)
        (Draft.Member.registerEntriesAll p around path dms) (registersAll ms)
  | [], ms, h => by
      cases h
      exact .nil
  | dm :: dms, _, h => by
      obtain ⟨m, ms, hm, hms, rfl⟩ := cons_eq_ok_iff.1 h
      exact List.rel_append (follows_ofDraft around (path.child dm.name) dm hm)
        (follows_ofDraftAll around path dms hms)

end

end Member

/-- The registers of a device follow those of its draft, in the same order. -/
theorem Device.follows_ofDraft {draft : Draft.Device} {d : Device}
    (h : (Device.ofDraft draft).result = .ok d) :
    List.Forall₂ (fun e r => r.Follows e) draft.registerEntries d.registers := by
  obtain ⟨ps, hps, -, rfl⟩ := ofDraft_eq_ok_iff.1 h
  rw [registers_eq]
  refine List.rel_flatMap hps fun dp p hp => ?_
  obtain ⟨address, -, hp⟩ := bind_eq_ok_iff.1 hp
  obtain ⟨ms, hms, hp⟩ := bind_eq_ok_iff.1 hp
  obtain ⟨_, -, hp⟩ := bind_eq_ok_iff.1 hp
  cases hp
  exact Member.follows_ofDraftAll dp [] _ dp.memberList hms

/-- The registers of a device are those of its placed draft, one by one. Each has the access in
effect for it, or else the one that all of its fields give for themselves, or else it can be read
and written, and this depends only on which access rights occur among its fields. A field has its
own access or that of its register.

The access in effect for a register is the first one given by it, a cluster around it, its
peripheral or the device. It is also the first one that is given on a chain of derivations or around
the registers there, and the fields are the first ones on this chain, with the arrays among them
expanded. -/
theorem parse_grants_access {source : Source} {config : Config} {d : Device}
    (h : (parse source config).result = .ok d) :
    ∃ root built middle n placed, source.read = .ok root ∧
      Draft.Reaches config root .built built ∧ built.derivePeripherals = .ok (middle, n) ∧
      Draft.Reaches config root .placed placed ∧
      List.Forall₂ (fun e r => r.Follows e) placed.registerEntries d.registers ∧
      ∀ e ∈ placed.registerEntries,
        e.register.effective = .firstGiven
          (e.register.props :: e.clusters.map (·.props) ++ [e.peripheral.props, placed.props]) ∧
        middle.SomeChain fun chain => e.register.StemsFrom chain := by
  obtain ⟨root, regions, placed, plain, hroot, -, hplaced, hplain, haliases⟩ :=
    exists_placed_of_parse h
  obtain ⟨built, middle, n, hbuilt, hmiddle, hstems⟩ := hplaced.exists_stems ⟨nofun, nofun⟩
  refine ⟨root, built, middle, n, placed, hroot, hbuilt, hmiddle, hplaced, ?_, fun e he => ?_⟩
  · exact forall₂_trans (Device.follows_ofDraft hplain) (Device.registers_withAliases haliases)
      fun e r r' follows hr => follows.withAliases hr
  · exact ⟨hplaced.inherits.effective_registerEntry he, Draft.Device.each_registerEntry hstems he⟩

/-! ### A document with registers of different access -/

open Element in
/-- A register with an array of fields that can be read, one that is derived from it and can be
written, and one of which not all fields say what can be done with them. -/
def guardedRoot : Element :=
  node "device" [leaf "name" "D", leaf "size" "8", leaf "resetValue" "0", node "peripherals" [
    node "peripheral" [leaf "name" "P", leaf "baseAddress" "0", node "registers" [
      node "register" [leaf "name" "A", leaf "addressOffset" "0", node "fields" [
        node "field" [leaf "name" "F%s", leaf "bitOffset" "0", leaf "access" "read-only",
          leaf "dim" "2", leaf "dimIncrement" "1"]]],
      { node "register" [leaf "name" "B", leaf "addressOffset" "1", leaf "access" "write-only"] with
        attributes := [("derivedFrom", "A")] },
      node "register" [leaf "name" "C", leaf "addressOffset" "2", node "fields" [
        node "field" [leaf "name" "F", leaf "bitOffset" "0", leaf "access" "read-only"],
        node "field" [leaf "name" "G", leaf "bitOffset" "1"]]]]]]]

/-- The lines of the document with these elements. -/
def guardedLines : List String := [
  "<device><name>D</name><size>8</size><resetValue>0</resetValue><peripherals>",
  "<peripheral><name>P</name><baseAddress>0</baseAddress><registers>",
  "<register><name>A</name><addressOffset>0</addressOffset><fields><field><name>F%s</name>",
  "<bitOffset>0</bitOffset><access>read-only</access><dim>2</dim>",
  "<dimIncrement>1</dimIncrement></field></fields></register>",
  "<register derivedFrom=\"A\"><name>B</name><addressOffset>1</addressOffset>",
  "<access>write-only</access></register>",
  "<register><name>C</name><addressOffset>2</addressOffset><fields><field><name>F</name>",
  "<bitOffset>0</bitOffset><access>read-only</access></field><field><name>G</name>",
  "<bitOffset>1</bitOffset></field></fields></register>",
  "</registers></peripheral></peripherals></device>"]

set_option maxRecDepth 10000 in
theorem read_guarded : (Source.text (String.join guardedLines)).read = .ok guardedRoot := by
  have hlines : guardedLines = List.map String.ofList [_, _, _, _, _, _, _, _, _, _, _] := rfl
  change Markup.readText (String.join guardedLines) = .ok guardedRoot
  refine Markup.readText_join hlines ?_ ?_ ?_
  · decide +kernel
  · rfl
  · decide +kernel

/-- The first register has the access that its fields share, the second one its own although it has
the fields of the first one, and the third one can be read and written, as can the field of it that
gives no access. -/
theorem parse_grants_access_guarded :
    let config : Config := { tolerateOverlaps := true }
    ∃ d placed, (parse (.text (String.join guardedLines)) config).result = .ok d ∧
      d.registers.map (fun r => (r.access, r.fields.map (·.access))) =
        [(.readOnly, [.readOnly, .readOnly]), (.writeOnly, [.readOnly, .readOnly]),
          (.readWrite, [.readOnly, .readWrite])] ∧
      Draft.Reaches config guardedRoot .placed placed ∧
      List.Forall₂ (fun e r => r.Follows e) placed.registerEntries d.registers := by
  intro config
  have hparsed : (parse (.text (String.join guardedLines)) config).result.toOption.any fun d =>
      d.registers.map (fun r => (r.access, r.fields.map (·.access))) =
        [(.readOnly, [.readOnly, .readOnly]), (.writeOnly, [.readOnly, .readOnly]),
          (.readWrite, [.readOnly, .readWrite])] := by
    simp only [Device.registers_eq]
    rw [result_parse read_guarded rfl]
    decide +kernel
  obtain ⟨d, hd, haccess⟩ := exists_ok_of_any hparsed
  obtain ⟨root, built, middle, n, placed, hroot, -, -, hplaced, hfollows, -⟩ :=
    parse_grants_access hd
  cases read_guarded.symm.trans hroot
  exact ⟨d, placed, hd, of_decide_eq_true haccess, hplaced, hfollows⟩

end RegisterMap
