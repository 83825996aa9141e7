import RegisterMap.Proofs.Copies
import RegisterMap.Proofs.DerivationOrder
import RegisterMap.Proofs.Document
import RegisterMap.Proofs.Inheritance
import RegisterMap.Proofs.Lookup

/-!
# Derived peripherals

A peripheral that is derived stands at the beginning of a chain, as a register does
(`Device.HasBases`), and is flattened in the same way: each attribute is the first one given on the
chain, as the peripherals were built. Registers that are taken over are copied to their new place.

The peripherals are derived one after the other, each from what its base has become by then.
`Progress` says what a device looks like in between: those that are done are flattened already, the
others are as they were. Since bases come first, the next one is derived from a flattened base.
-/

namespace RegisterMap.Draft

/-! ### Drafts as they are built -/

theorem Peripheral.withDefaults_withDefaults (defaults before : RegisterProperties)
    (p : Peripheral) : (p.withDefaults before).withDefaults defaults = p.withDefaults defaults := by
  cases h : p.members <;> simp [withDefaults, h, Member.withDefaultsAll_withDefaultsAll]

/-- The names of the peripherals are distinct, and everything in them knows the properties in effect
around it. -/
structure Device.Settled (d : Device) : Prop where
  names : (d.peripherals.map (·.name)).Nodup
  defaults : ∀ p ∈ d.peripherals, p.withDefaults d.props = p

theorem names_buildPeripherals (parent : NodePath) (built : List Peripheral) (es : List Element)
    (h : (built.map (·.name)).Nodup) :
    (buildPeripherals parent built es).Yields fun ps => (ps.map (·.name)).Nodup := by
  induction es generalizing built with
  | nil => exact .of_pure h
  | cons e es ih =>
      unfold buildPeripherals
      refine .bind_of_forall fun p => .throw_or fun hnew => ih _ ?_
      rw [List.map_append, List.map_singleton, List.nodup_append_comm]
      exact List.nodup_cons.2 ⟨by simpa using hnew, h⟩

theorem settled_buildDevice (root : Element) : (buildDevice root).Yields Device.Settled := by
  unfold buildDevice
  refine .throw_or fun _ => .bind_of_forall fun head => ?_
  refine .bind (names_buildPeripherals _ _ _ List.nodup_nil) fun ps hnames => ?_
  refine .bind_of_forall fun _ => .of_pure ⟨?_, ?_⟩
  · rw [List.map_map]
    exact hnames
  · intro p hp
    obtain ⟨q, -, rfl⟩ := List.mem_map.1 hp
    exact q.withDefaults_withDefaults _ _

/-! ### Chains -/

/-- The references from the peripheral `p` lead along `bases`, the last of which is not derived. -/
inductive Device.HasBases (d : Device) : Peripheral → List Peripheral → Prop
  | last {p : Peripheral} (own : p.derivedFrom = none) : HasBases d p []
  | step {p base : Peripheral} {bases : List Peripheral} (mem : base ∈ d.peripherals)
      (given : p.derivedFrom = some base.name) (rest : HasBases d base bases) :
      HasBases d p (base :: bases)

/-- A peripheral derived from the first of its bases, which is derived from the second, and so
on. -/
def Peripheral.deriveAlong (p : Peripheral) : List Peripheral → Peripheral
  | [] => p
  | base :: bases => p.derive (base.deriveAlong bases)

theorem Device.HasBases.unique {d : Device} (names : (d.peripherals.map (·.name)).Nodup)
    {p : Peripheral} {ps qs : List Peripheral} (h : d.HasBases p ps) (h' : d.HasBases p qs) :
    ps = qs := by
  induction h generalizing qs with
  | last own =>
      cases h' with
      | last => rfl
      | step mem given rest =>
          rw [own] at given
          cases given
  | step mem given rest ih =>
      cases h' with
      | last own =>
          rw [own] at given
          cases given
      | step mem' given' rest' =>
          have hname := Option.some.inj (given.symm.trans given')
          obtain rfl := List.inj_on_of_nodup_map names mem mem' hname
          rw [ih rest']

/-! ### One peripheral after the other -/

/-- The second peripheral is the first one, derived along its chain. -/
def Device.DerivesTo (d : Device) (p p' : Peripheral) : Prop :=
  ∃ bases, d.HasBases p bases ∧ p' = (p.deriveAlong bases).withDefaults d.props

/-- The peripherals `qs` are those of the device, as they are when those in `done` are derived. -/
structure Device.Progress (d : Device) (done : List Numbered) (qs : List Peripheral) : Prop where
  names : qs.map (·.name) = d.peripherals.map (·.name)
  numbered : ∀ p ∈ done, d.peripherals[p.2]? = some p.1
  derived : ∀ p ∈ done, ∃ p', qs[p.2]? = some p' ∧ d.DerivesTo p.1 p'
  waiting : ∀ p i, d.peripherals[i]? = some p → (p, i) ∉ done → qs[i]? = some p

/-- A peripheral that is derived sets the properties in effect in everything that it takes over, so
it does not matter what they were for its base. -/
theorem Peripheral.withDefaults_derive_withDefaults (defaults before : RegisterProperties)
    (p base : Peripheral) :
    (p.derive (base.withDefaults before)).withDefaults defaults =
      (p.derive base).withDefaults defaults := by
  cases hp : p.members <;> cases hbase : base.members <;>
    simp [derive, withDefaults, hp, hbase, Member.withDefaultsAll_withDefaultsAll]

theorem Peripheral.name_deriveAlong (p : Peripheral) (bases : List Peripheral) :
    (p.deriveAlong bases).name = p.name := by
  cases bases <;> rfl

namespace Device.Progress

variable {d : Device} {done : List Numbered} {qs : List Peripheral}

theorem start (d : Device) : d.Progress [] d.peripherals where
  names := rfl
  numbered := by simp
  derived := by simp
  waiting _ _ h _ := h

/-- A peripheral whose base is done is derived along its own chain, and the others stay as they
are. -/
theorem exists_derivePeripheral (settled : d.Settled) (h : d.Progress done qs) {p : Numbered}
    (hp : d.peripherals[p.2]? = some p.1) (hnew : p ∉ done)
    (first : p.1.derivedFrom = none ∨ ∃ q ∈ done, p.1.derivedFrom = some q.1.name) :
    ∃ p', d.DerivesTo p.1 p' ∧ p'.name = p.1.name ∧
      ∀ j, (derivePeripheral d.props qs p)[j]? = if p.2 = j then some p' else qs[j]? := by
  have hcurrent : qs[p.2]? = some p.1 := h.waiting p.1 p.2 hp hnew
  rcases first with hown | ⟨q, hq, hgiven⟩
  · refine ⟨p.1, ⟨[], .last hown, (settled.defaults p.1 (List.mem_of_getElem? hp)).symm⟩, rfl, ?_⟩
    intro j
    rw [derivePeripheral, hown, Option.bind_none]
    dsimp only
    split
    · next heq => rw [← heq, hcurrent]
    · rfl
  · obtain ⟨base, hbase, bases, hchain, rfl⟩ := h.derived q hq
    have hname : ((q.1.deriveAlong bases).withDefaults d.props).name = q.1.name :=
      q.1.name_deriveAlong bases
    have hfind : lastNamed? qs.zipIdx q.1.name =
        some ((q.1.deriveAlong bases).withDefaults d.props, q.2) := by
      rw [← hname]
      exact find?_reverse_zipIdx (h.names ▸ settled.names) hbase
    refine ⟨(p.1.derive (q.1.deriveAlong bases)).withDefaults d.props,
      ⟨q.1 :: bases, .step (List.mem_of_getElem? (h.numbered q hq)) hgiven hchain, rfl⟩, rfl, ?_⟩
    intro j
    rw [derivePeripheral, hgiven, Option.bind_some, hfind]
    dsimp only
    rw [List.getElem?_modify]
    split
    · next heq =>
      rw [← heq, hcurrent, Option.map_eq_map, Option.map_some,
        Peripheral.withDefaults_derive_withDefaults]
    · exact Option.map_id'

/-- Deriving the next peripheral in order is a step forward. -/
theorem step (settled : d.Settled) (h : d.Progress done qs) {p : Numbered}
    (hp : d.peripherals[p.2]? = some p.1) (hnew : p ∉ done)
    (first : p.1.derivedFrom = none ∨ ∃ q ∈ done, p.1.derivedFrom = some q.1.name) :
    d.Progress (p :: done) (derivePeripheral d.props qs p) := by
  obtain ⟨p', hderives, hname, hget⟩ := h.exists_derivePeripheral settled hp hnew first
  have hcurrent : qs[p.2]? = some p.1 := h.waiting p.1 p.2 hp hnew
  refine ⟨?_, List.forall_mem_cons.2 ⟨hp, h.numbered⟩, List.forall_mem_cons.2 ⟨?_, ?_⟩, ?_⟩
  · rw [← h.names]
    refine List.ext_getElem? fun j => ?_
    rw [List.getElem?_map, List.getElem?_map, hget]
    split
    · next heq => rw [← heq, hcurrent, Option.map_some, Option.map_some, hname]
    · rfl
  · exact ⟨p', by rw [hget, if_pos rfl], hderives⟩
  · intro q hq
    -- Only one peripheral has the index of `p`, and it was not done before.
    have hindex : p.2 ≠ q.2 := by
      intro heq
      have hsame := h.numbered q hq
      rw [← heq, hp] at hsame
      exact hnew (Prod.ext (Option.some.inj hsame) heq ▸ hq)
    rw [hget, if_neg hindex]
    exact h.derived q hq
  · intro q j hq hwaiting
    rw [List.mem_cons, not_or] at hwaiting
    have hindex : p.2 ≠ j := by
      intro heq
      rw [← heq, hp] at hq
      exact hwaiting.1 (Prod.ext (Option.some.inj hq).symm heq.symm)
    rw [hget, if_neg hindex]
    exact h.waiting q j hq hwaiting.2

/-- Deriving peripherals in an order in which bases come first derives all of them. -/
theorem run (settled : d.Settled) (h : d.Progress done qs) {order : List Numbered}
    (hnumbered : ∀ p ∈ order, d.peripherals[p.2]? = some p.1) (nodup : order.Nodup)
    (hnew : ∀ p ∈ order, p ∉ done) (first : BasesFirst done order) :
    d.Progress (order.reverse ++ done) (order.foldl (derivePeripheral d.props) qs) := by
  induction order generalizing done qs with
  | nil => exact h
  | cons p order ih =>
      rw [List.forall_mem_cons] at hnumbered hnew
      rw [List.nodup_cons] at nodup
      have hstep := h.step settled hnumbered.1 hnew.1 first.1
      rw [List.reverse_cons, List.append_assoc, List.singleton_append, List.foldl_cons]
      refine ih hstep hnumbered.2 nodup.2 (fun q hq => ?_) first.2
      rw [List.mem_cons, not_or]
      exact ⟨fun heq => nodup.1 (heq ▸ hq), hnew.2 q hq⟩

end Device.Progress

theorem foldl_filter_derived (defaults : RegisterProperties) (order : List Numbered)
    (ps : List Peripheral) :
    (order.filter (·.1.derivedFrom.isSome)).foldl (derivePeripheral defaults) ps =
      order.foldl (derivePeripheral defaults) ps := by
  rw [List.foldl_filter]
  congr 1
  funext ps p
  cases h : p.1.derivedFrom with
  | none => simp [derivePeripheral, h]
  | some name => rfl

/-- If every reference names a peripheral and no references lead in a circle, all peripherals can be
derived, each along its chain. -/
theorem Device.exists_derivePeripherals {d : Device} (settled : d.Settled) (exist : d.BasesExist)
    (acyclic : d.Acyclic) : ∃ ps n, d.derivePeripherals = .ok ({ d with peripherals := ps }, n) ∧
      ps.length = d.peripherals.length ∧
      ∀ (i : Nat) p, d.peripherals[i]? = some p → ∃ p', ps[i]? = some p' ∧ d.DerivesTo p p' := by
  obtain ⟨order, horder, hperm, hfirst⟩ := exists_derivationOrder exist acyclic
  have hnumbered : ∀ p ∈ order, d.peripherals[p.2]? = some p.1 := fun p hp =>
    List.mk_mem_zipIdx_iff_getElem?.1 (hperm.mem_iff.1 hp)
  have nodup : order.Nodup := by
    refine hperm.nodup_iff.2 (.of_map Prod.snd ?_)
    rw [List.zipIdx_map_snd]
    exact List.nodup_range' _
  have hprogress := (Progress.start d).run settled hnumbered nodup (by simp) hfirst
  have hresult : d.derivePeripherals = .ok
      ({ d with peripherals := order.foldl (derivePeripheral d.props) d.peripherals },
        (order.filter (·.1.derivedFrom.isSome)).length) := by
    unfold derivePeripherals
    rw [checkBases_eq_ok_iff.2 exist, horder, ← foldl_filter_derived]
    rfl
  refine ⟨_, _, hresult, ?_, fun i p hp => ?_⟩
  · simpa using congrArg List.length hprogress.names
  · have hmem : (p, i) ∈ order := hperm.mem_iff.2 (List.mk_mem_zipIdx_iff_getElem?.2 hp)
    exact hprogress.derived (p, i) (by simp [hmem])

/-- What a peripheral does not take over from a base is its own after derivation. -/
theorem Device.DerivesTo.own {α : Type} {d : Device} {p p' : Peripheral} (h : d.DerivesTo p p')
    (get : Peripheral → α) (derive : ∀ p base, get (p.derive base) = get p)
    (withDefaults : ∀ p defaults, get (p.withDefaults defaults) = get p) : get p' = get p := by
  obtain ⟨bases, -, rfl⟩ := h
  rw [withDefaults]
  cases bases with
  | nil => rfl
  | cons base bases => exact derive p _

theorem Device.DerivesTo.name {d : Device} {p p' : Peripheral} (h : d.DerivesTo p p') :
    p'.name = p.name :=
  h.own (·.name) (fun _ _ => rfl) (fun _ _ => rfl)

theorem Device.DerivesTo.dim {d : Device} {p p' : Peripheral} (h : d.DerivesTo p p') :
    p'.dim = p.dim :=
  h.own (·.dim) (fun _ _ => rfl) (fun _ _ => rfl)

/-- No interrupts are taken over from a base. -/
theorem Device.DerivesTo.interrupts {d : Device} {p p' : Peripheral} (h : d.DerivesTo p p') :
    p'.interrupts = p.interrupts :=
  h.own (·.interrupts) (fun _ _ => rfl) (fun _ _ => rfl)

theorem Device.DerivesTo.unique {d : Device} (names : (d.peripherals.map (·.name)).Nodup)
    {p p' p'' : Peripheral} (h : d.DerivesTo p p') (h' : d.DerivesTo p p'') : p' = p'' := by
  obtain ⟨bases, hbases, rfl⟩ := h
  obtain ⟨bases', hbases', rfl⟩ := h'
  rw [hbases.unique names hbases']

/-! ### Flattening -/

/-- A peripheral of the device is what another one comes to along a chain of bases, said of the
peripherals of the chain alone. The members are copied from the first one on the chain that gives
any. -/
structure Peripheral.FlattenedAlong (d : Device) (result p : Peripheral)
    (bases : List Peripheral) : Prop where
  name : result.name = p.name
  dim : result.dim = p.dim
  alternate : result.alternate = p.alternate
  interrupts : result.interrupts = p.interrupts
  derivedFrom : result.derivedFrom = none
  baseAddress : result.baseAddress = (p :: bases).findSome? (·.baseAddress)
  description : result.description = (p :: bases).findSome? (·.description)
  groupName : result.groupName = (p :: bases).findSome? (·.groupName)
  version : result.version = (p :: bases).findSome? (·.version)
  addressBlocks : result.addressBlocks = (p :: bases).findSome? (·.addressBlocks)
  props : result.props = .firstGiven ((p :: bases).map (·.props))
  defaults : result.defaults = d.props
  absent : (∀ q ∈ p :: bases, q.members = none) → result.members = none
  copied : ∀ before q after ms, p :: bases = before ++ q :: after →
    (∀ b ∈ before, b.members = none) → q.members = some ms →
    ∃ copies, result.members = some copies ∧
      Member.Copies (d.path.child q.name) ms (d.path.child result.name) result.effective copies

theorem Peripheral.props_deriveAlong (p : Peripheral) (bases : List Peripheral) :
    (p.deriveAlong bases).props = .firstGiven ((p :: bases).map (·.props)) := by
  induction bases generalizing p with
  | nil => exact (RegisterProperties.firstGiven_singleton p.props).symm
  | cons base bases ih =>
      rw [List.map_cons, RegisterProperties.firstGiven_cons, ← ih]
      rfl

theorem Peripheral.flattenedAlong {d : Device} {p : Peripheral} {bases : List Peripheral}
    (chain : d.HasBases p bases) :
    ((p.deriveAlong bases).withDefaults d.props).FlattenedAlong d p bases := by
  have own {α : Type} (get : Peripheral → α) (keep : ∀ q base, get (q.derive base) = get q) :
      get (p.deriveAlong bases) = get p := by
    cases bases with
    | nil => rfl
    | cons base bases => exact keep _ _
  have first {α : Type} (get : Peripheral → Option α)
      (takeOver : ∀ q base, get (q.derive base) = (get q).or (get base)) :
      get (p.deriveAlong bases) = (p :: bases).findSome? get :=
    eq_findSome?_of_takeOver (fun _ => rfl) (fun q _ _ => takeOver q _) p bases
  have hmembers := first (·.members) fun _ _ => rfl
  constructor
  · exact own (·.name) fun _ _ => rfl
  · exact own (·.dim) fun _ _ => rfl
  · exact own (·.alternate) fun _ _ => rfl
  · exact own (·.interrupts) fun _ _ => rfl
  · cases chain with
    | last given => exact given
    | step => rfl
  · exact first (·.baseAddress) fun _ _ => rfl
  · exact first (·.description) fun _ _ => rfl
  · exact first (·.groupName) fun _ _ => rfl
  · exact first (·.version) fun _ _ => rfl
  · exact first (·.addressBlocks) fun _ _ => rfl
  · exact p.props_deriveAlong bases
  · rfl
  · intro habsent
    rw [List.findSome?_eq_none_iff.2 habsent] at hmembers
    change (p.deriveAlong bases).members.map _ = none
    rw [hmembers, Option.map_none]
  · intro before q after ms hsplit hbefore hgiven
    have hfirst : (p :: bases).findSome? (·.members) = some ms := by
      rw [hsplit, List.findSome?_append, List.findSome?_eq_none_iff.2 hbefore, Option.none_or,
        findSome?_cons_eq_or, hgiven, Option.some_or]
    refine ⟨_, ?_, Member.copies_withDefaultsAll _ _ _ ms⟩
    change (p.deriveAlong bases).members.map _ = _
    rw [hmembers, hfirst, Option.map_some]
    rfl

/-- Deriving the peripherals of a device flattens them. If every reference names a peripheral and no
references lead in a circle, then the references from each peripheral lead along exactly one chain,
all peripherals are derived, and each of them comes to be what its chain comes to. Those that are
not derived stay as they are. -/
theorem peripheral_derivation_flattens {root : Element} {d : Device}
    (built : (buildDevice root).result = .ok d) (exist : d.BasesExist) (acyclic : d.Acyclic) :
    ∃ ps n, d.derivePeripherals = .ok ({ d with peripherals := ps }, n) ∧
      ps.length = d.peripherals.length ∧
      ∀ (i : Nat) p, d.peripherals[i]? = some p →
        ∃ bases p', (∀ qs, d.HasBases p qs ↔ qs = bases) ∧ ps[i]? = some p' ∧
          p'.FlattenedAlong d p bases ∧ (p.derivedFrom = none → p' = p) := by
  have settled := settled_buildDevice root d built
  obtain ⟨ps, n, hresult, hlength, hall⟩ := d.exists_derivePeripherals settled exist acyclic
  refine ⟨ps, n, hresult, hlength, fun i p hp => ?_⟩
  obtain ⟨_, hp', bases, hchain, rfl⟩ := hall i p hp
  refine ⟨bases, _, fun qs => ⟨fun hqs => hqs.unique settled.names hchain, fun hqs => hqs ▸ hchain⟩,
    hp', Peripheral.flattenedAlong hchain, fun hown => ?_⟩
  cases hchain with
  | last => exact settled.defaults p (List.mem_of_getElem? hp)
  | step mem given rest =>
      rw [hown] at given
      cases given

/-- References that always lead down cannot lead in a circle. -/
theorem Device.acyclic_of_rank {d : Device} (rank : String → Nat)
    (h : ∀ p ∈ d.peripherals, ∀ base, p.derivedFrom = some base → rank base < rank p.name) :
    d.Acyclic := by
  have hdown {name base : String} (hrefers : Relation.TransGen d.Refers name base) :
      rank base < rank name := by
    induction hrefers with
    | single hstep =>
        obtain ⟨p, hp, rfl, hgiven⟩ := hstep
        exact h p hp _ hgiven
    | tail _ hstep ih =>
        obtain ⟨p, hp, rfl, hgiven⟩ := hstep
        exact Nat.lt_trans (h p hp _ hgiven) ih
  exact fun name hcircle => Nat.lt_irrefl _ (hdown hcircle)

open Element in
/-- A peripheral that is derived from one without registers, which is derived from one with a
register. -/
def basesRoot : Element :=
  node "device" [leaf "name" "D", node "peripherals" [
    { node "peripheral" [leaf "name" "A"] with attributes := [("derivedFrom", "B")] },
    { node "peripheral" [leaf "name" "B", node "registers" []] with
      attributes := [("derivedFrom", "C")] },
    node "peripheral" [leaf "name" "C", leaf "baseAddress" "4", node "registers" [
      node "register" [leaf "name" "R", leaf "addressOffset" "0"]]]]]

/-- The base address is the one given at the end of the chain. The registers are given before, even
though there are none. -/
theorem peripheral_derivation_flattens_bases :
    ∃ d ps n p a bases, (buildDevice basesRoot).result = .ok d ∧
      d.derivePeripherals = .ok ({ d with peripherals := ps }, n) ∧ ps[0]? = some a ∧
      a.FlattenedAlong d p bases ∧ a.baseAddress = some 4 ∧ a.members = some [] := by
  let rank : String → Nat := ["C", "B", "A"].idxOf
  have hbuilt : (buildDevice basesRoot).result.toOption.any fun d =>
      (d.peripherals.all fun p => p.derivedFrom.all fun base =>
        d.peripherals.any (·.name == base) && decide (rank base < rank p.name)) &&
      d.derivePeripherals.toOption.any fun derived => derived.1.peripherals[0]?.any fun a =>
        decide (a.baseAddress = some 4) && a.members.any (·.isEmpty) := by
    decide +kernel
  obtain ⟨d, hd, h⟩ := exists_ok_of_any hbuilt
  rw [Bool.and_eq_true, List.all_eq_true] at h
  have hreferences (p : Peripheral) (hp : p ∈ d.peripherals) (base : String)
      (hgiven : p.derivedFrom = some base) :
      (∃ q ∈ d.peripherals, q.name = base) ∧ rank base < rank p.name := by
    have hbase := h.1 p hp
    rw [hgiven, Option.all_some, Bool.and_eq_true, List.any_eq_true, decide_eq_true_eq] at hbase
    simpa only [beq_iff_eq] using hbase
  obtain ⟨ps, n, hresult, hlength, hall⟩ := peripheral_derivation_flattens hd
    (fun p hp base hgiven => (hreferences p hp base hgiven).1)
    (Device.acyclic_of_rank rank fun p hp base hgiven => (hreferences p hp base hgiven).2)
  obtain ⟨derived, hderived, hfirst⟩ := exists_ok_of_any h.2
  rw [hresult] at hderived
  cases hderived
  obtain ⟨a, ha, hvalues⟩ := (Option.any_eq_true _ _).1 hfirst
  rw [Bool.and_eq_true, decide_eq_true_eq, Option.any_eq_true] at hvalues
  obtain ⟨haddress, ms, hms, hempty⟩ := hvalues
  rw [List.isEmpty_iff] at hempty
  have hlt : 0 < d.peripherals.length := hlength ▸ (List.getElem?_eq_some_iff.1 ha).1
  obtain ⟨bases, p', -, hp', hflat, -⟩ := hall 0 _ (List.getElem?_eq_getElem hlt)
  obtain rfl : a = p' := Option.some.inj (ha.symm.trans hp')
  exact ⟨d, ps, n, _, a, bases, hd, hresult, ha, hflat, haddress, hempty ▸ hms⟩

end RegisterMap.Draft
