import RegisterMap.Draft.Derivation
import RegisterMap.Draft.Exclusion
import RegisterMap.Draft.Expansion
import RegisterMap.Proofs.Building
import RegisterMap.Proofs.Instances

/-!
# Drafts whose alternates are not linked yet

Before alternates are resolved no element of a draft has any. `Member.Every` says that a condition
holds for the headers of a member and of everything inside of it; each operation on drafts keeps a
condition that survives what the operation does to one header. The condition of having no alternates
survives all of them, from `buildDevice` to `Device.exclude`.
-/

namespace RegisterMap.Draft

/-- No alternate of the element is known. -/
def Header.Unlinked (h : Header) : Prop :=
  h.alternates = ∅

namespace Member

mutual

/-- The condition holds for the member and for everything inside of it. -/
def Every (P : Header → Prop) : Member → Prop
  | .register r => P r.toHeader
  | .cluster c ms => P c.toHeader ∧ EveryAll P ms

/-- The condition holds for the members and for everything inside of them. -/
def EveryAll (P : Header → Prop) : List Member → Prop
  | [] => True
  | m :: ms => Every P m ∧ EveryAll P ms

end

variable {P : Header → Prop}

theorem everyAll_iff {ms : List Member} : EveryAll P ms ↔ ∀ m ∈ ms, m.Every P := by
  induction ms with
  | nil => simp [EveryAll]
  | cons m ms ih => rw [EveryAll, ih, List.forall_mem_cons]

theorem Every.header {m : Member} (h : m.Every P) : P m.header := by
  cases m with
  | register => exact h
  | cluster => exact h.1

theorem Every.members {m : Member} (h : m.Every P) : EveryAll P m.members := by
  cases m with
  | register => trivial
  | cluster => exact h.2

mutual

theorem every_withDefaults (keep : ∀ h defaults, P h → P { h with defaults })
    (defaults : RegisterProperties) : ∀ m : Member, m.Every P → (m.withDefaults defaults).Every P
  | .register _, h => keep _ _ h
  | .cluster _ ms, h => ⟨keep _ _ h.1, everyAll_withDefaultsAll keep _ ms h.2⟩

theorem everyAll_withDefaultsAll (keep : ∀ h defaults, P h → P { h with defaults })
    (defaults : RegisterProperties) :
    ∀ ms : List Member, EveryAll P ms → EveryAll P (withDefaultsAll defaults ms)
  | [], _ => trivial
  | m :: ms, h =>
      ⟨every_withDefaults keep defaults m h.1, everyAll_withDefaultsAll keep defaults ms h.2⟩

end

mutual

theorem every_mapRegisters {f : List Nat → Register → Register}
    (keep : ∀ position r, P r.toHeader → P (f position r).toHeader) (position : List Nat) :
    ∀ m : Member, m.Every P → (mapRegisters f position m).Every P
  | .register _, h => keep _ _ h
  | .cluster _ ms, h => ⟨h.1, everyAll_mapRegistersAll keep position 0 ms h.2⟩

theorem everyAll_mapRegistersAll {f : List Nat → Register → Register}
    (keep : ∀ position r, P r.toHeader → P (f position r).toHeader) (position : List Nat)
    (i : Nat) : ∀ ms : List Member, EveryAll P ms → EveryAll P (mapRegistersAll f position i ms)
  | [], _ => trivial
  | m :: ms, h =>
      ⟨every_mapRegisters keep (position ++ [i]) m h.1,
        everyAll_mapRegistersAll keep position (i + 1) ms h.2⟩

end

theorem every_place (keep : ∀ h i, P h → P (Header.instantiate h i)) {m : Member}
    (h : m.Every P) (i : Option Instance) : (place m i).Every P := by
  cases i with
  | none => exact h
  | some i =>
      cases m with
      | register r => exact keep _ _ h
      | cluster c ms => exact ⟨keep _ _ h.1, h.2⟩

mutual

theorem every_expandInside (keep : ∀ h i, P h → P (Header.instantiate h i)) :
    ∀ (path : NodePath) (m : Member) {m' : Member},
      m.Every P → m.expandInside path = .ok m' → m'.Every P
  | path, .register r, m', h, e => by
      unfold expandInside at e
      split at e
      · cases e
        exact h
      · obtain ⟨fs, -, e⟩ := bind_eq_ok_iff.1 e
        cases e
        exact h
  | path, .cluster c ms, m', h, e => by
      unfold expandInside at e
      obtain ⟨is, -, e⟩ := bind_eq_ok_iff.1 e
      obtain ⟨ms', hms, e⟩ := bind_eq_ok_iff.1 e
      cases e
      exact ⟨h.1, everyAll_expandInsideAll keep path is ms h.2 hms⟩

theorem everyAll_expandInsideAll (keep : ∀ h i, P h → P (Header.instantiate h i)) :
    ∀ (path : NodePath) (is : List (List (Option Instance))) (ms : List Member)
      {ms' : List Member},
      EveryAll P ms → expandInsideAll path is ms = .ok ms' → EveryAll P ms'
  | path, is, [], ms', _, e => by
      cases e
      trivial
  | path, is, m :: ms, ms', h, e => by
      obtain ⟨own, rest, hown, hrest, rfl⟩ := expandInsideAll_cons_eq_ok e
      refine everyAll_iff.2 fun n hn => ?_
      rcases List.mem_append.1 hn with hn | hn
      · obtain ⟨i, -, inside, hinside, rfl⟩ := exists_mem_left hown hn
        exact every_place keep (every_expandInside keep _ m h.1 hinside) i
      · exact everyAll_iff.1 (everyAll_expandInsideAll keep path is.tail ms h.2 hrest) n hn

end

mutual

theorem everyAll_of_mem_scopes (position : List Nat) (path : NodePath) :
    ∀ m : Member, m.Every P → ∀ s ∈ m.scopes position path, EveryAll P s.members
  | .register _, _, _, hs => by cases hs
  | .cluster _ ms, h, s, hs => by
      rcases List.mem_cons.1 hs with rfl | hs
      · exact h.2
      · exact everyAll_of_mem_scopesAll position path 0 ms h.2 s hs

theorem everyAll_of_mem_scopesAll (position : List Nat) (path : NodePath) (i : Nat) :
    ∀ ms : List Member, EveryAll P ms → ∀ s ∈ scopesAll position path i ms, EveryAll P s.members
  | [], _, _, hs => by cases hs
  | m :: ms, h, s, hs => by
      rcases List.mem_append.1 hs with hs | hs
      · exact everyAll_of_mem_scopesAll position path (i + 1) ms h.2 s hs
      · exact everyAll_of_mem_scopes (position ++ [i]) (path.child m.name) m h.1 s hs

end

end Member

/-- The condition holds for the peripheral and for everything inside of it. -/
def Peripheral.Every (P : Header → Prop) (p : Peripheral) : Prop :=
  P p.toHeader ∧ Member.EveryAll P p.memberList

/-- The condition holds for every peripheral, cluster and register of the device. -/
def Device.Every (P : Header → Prop) (d : Device) : Prop :=
  ∀ p ∈ d.peripherals, p.Every P

variable {P : Header → Prop}

theorem Device.Every.register {d : Device} (h : d.Every P) {s : Site} (hs : s ∈ d.sites) :
    P s.register.toHeader := by
  obtain ⟨scope, hscope, hs⟩ := List.mem_flatMap.1 hs
  obtain ⟨⟨p, i⟩, hp, hscope⟩ := List.mem_flatMap.1 hscope
  have hp := h p (List.fst_mem_of_mem_zipIdx hp)
  have hmembers : Member.EveryAll P scope.members := by
    rcases List.mem_cons.1 hscope with rfl | hscope
    · exact hp.2
    · exact Member.everyAll_of_mem_scopesAll _ _ 0 _ hp.2 scope hscope
  obtain ⟨⟨m, j⟩, hm, hs⟩ := List.mem_filterMap.1 hs
  have hm := Member.everyAll_iff.1 hmembers m (List.fst_mem_of_mem_zipIdx hm)
  cases m with
  | register r =>
      cases hs
      exact hm
  | cluster => cases hs

/-! ### Derivation -/

theorem Peripheral.unlinked_derive {p base : Peripheral} (hp : p.Every Header.Unlinked)
    (hbase : base.Every Header.Unlinked) : (p.derive base).Every Header.Unlinked := by
  refine ⟨hp.1, ?_⟩
  cases h : p.members with
  | none => simpa [Peripheral.memberList, Peripheral.derive, h] using hbase.2
  | some ms => simpa [Peripheral.memberList, Peripheral.derive, h] using hp.2

theorem Peripheral.unlinked_withDefaults (defaults : RegisterProperties) {p : Peripheral}
    (h : p.Every Header.Unlinked) : (p.withDefaults defaults).Every Header.Unlinked := by
  obtain ⟨header, members⟩ := h
  refine ⟨header, ?_⟩
  cases hp : p.members with
  | none => simp [Peripheral.memberList, Peripheral.withDefaults, hp, Member.EveryAll]
  | some ms =>
      simp only [Peripheral.memberList, Peripheral.withDefaults, hp, Option.getD_some,
        Option.map_some] at members ⊢
      exact Member.everyAll_withDefaultsAll (fun _ _ h => h) _ ms members

theorem unlinked_derivePeripheral (defaults : RegisterProperties) {ps : List Peripheral}
    (h : ∀ p ∈ ps, p.Every Header.Unlinked) (p : Numbered) :
    ∀ q ∈ derivePeripheral defaults ps p, q.Every Header.Unlinked := by
  intro q hq
  unfold derivePeripheral at hq
  split at hq
  · next base hbase =>
    have hbase : base.1 ∈ ps := by
      obtain ⟨name, -, hname⟩ := Option.bind_eq_some_iff.1 hbase
      exact List.fst_mem_of_mem_zipIdx (List.mem_reverse.1 (List.mem_of_find?_eq_some hname))
    obtain ⟨i, hi⟩ := List.mem_iff_getElem?.1 hq
    rw [List.getElem?_modify] at hi
    obtain ⟨p', hp', rfl⟩ := Option.map_eq_some_iff.1 hi
    have hp' := h p' (List.mem_of_getElem? hp')
    split
    · exact Peripheral.unlinked_withDefaults defaults (Peripheral.unlinked_derive hp' (h _ hbase))
    · exact hp'
  · exact h q hq

theorem unlinked_foldl_derivePeripheral (defaults : RegisterProperties) (order : List Numbered)
    {ps : List Peripheral} (h : ∀ p ∈ ps, p.Every Header.Unlinked) :
    ∀ p ∈ order.foldl (derivePeripheral defaults) ps, p.Every Header.Unlinked := by
  induction order generalizing ps with
  | nil => exact h
  | cons p order ih => exact ih (unlinked_derivePeripheral defaults h p)

theorem Device.unlinked_derivePeripherals {d d' : Device} {n : Nat}
    (h : d.Every Header.Unlinked) (e : d.derivePeripherals = .ok (d', n)) :
    d'.Every Header.Unlinked := by
  obtain ⟨_, -, e⟩ := bind_eq_ok_iff.1 e
  obtain ⟨order, -, e⟩ := bind_eq_ok_iff.1 e
  cases e
  exact unlinked_foldl_derivePeripheral _ _ h

@[simp] theorem Register.alternates_deriveAlong (r : Register) (bases : List Register) :
    (r.deriveAlong bases).alternates = r.alternates := by
  cases bases <;> rfl

theorem Device.alternates_deriveRegister {d : Device} {s : Site} {r : Register}
    (e : d.deriveRegister s = .ok r) : r.alternates = s.register.alternates := by
  simp only [Device.deriveRegister] at e
  split at e
  · cases e
    exact Register.alternates_deriveAlong _ _
  · cases e
  · cases e

theorem Device.unlinked_mapRegisters {f : List Nat → Register → Register} {d : Device}
    (h : d.Every Header.Unlinked)
    (keep : ∀ position (r : Register), r.Unlinked → (f position r).Unlinked) :
    (d.mapRegisters f).Every Header.Unlinked := by
  intro p' hp'
  obtain ⟨i, hi, rfl⟩ := List.mem_mapIdx.1 hp'
  obtain ⟨header, members⟩ := h _ (List.getElem_mem hi)
  refine ⟨header, ?_⟩
  unfold Peripheral.memberList at members ⊢
  cases hp : d.peripherals[i].members with
  | none => simp [Member.EveryAll]
  | some ms =>
      rw [hp] at members
      simpa [hp] using Member.everyAll_mapRegistersAll keep [i] 0 ms members

theorem Device.unlinked_deriveRegisters {d d' : Device} {n : Nat}
    (h : d.Every Header.Unlinked) (e : d.deriveRegisters = .ok (d', n)) :
    d'.Every Header.Unlinked := by
  obtain ⟨resolved, hresolved, e⟩ := bind_eq_ok_iff.1 e
  cases e
  refine Device.unlinked_mapRegisters h fun position r hr => ?_
  cases hlookup : resolved.lookup position with
  | none => exact hr
  | some r' =>
      obtain ⟨before, after, rfl, -⟩ := List.lookup_eq_some_iff.1 hlookup
      obtain ⟨s, hs, hstep⟩ := exists_mem_left (mapM_eq_ok_iff.1 hresolved)
        (List.mem_append_right before List.mem_cons_self)
      obtain ⟨r'', hr'', hstep⟩ := bind_eq_ok_iff.1 hstep
      cases hstep
      have := Device.alternates_deriveRegister hr''
      exact this.trans (h.register (List.mem_of_mem_filter hs))

theorem Device.unlinked_resolveDerivations {d : Device} (h : d.Every Header.Unlinked) :
    d.resolveDerivations.Yields (Device.Every Header.Unlinked) := by
  refine .bind (.of_ofExcept fun _ => Device.unlinked_derivePeripherals h) fun d₁ h₁ => ?_
  refine .bind (.of_ofExcept fun _ => Device.unlinked_deriveRegisters h₁) fun d₂ h₂ => ?_
  exact .bind_of_forall fun _ => .of_pure h₂

/-! ### Expansion and exclusion -/

theorem Peripheral.unlinked_place {p : Peripheral} (h : p.Every Header.Unlinked)
    (i : Option Instance) : (place p i).Every Header.Unlinked := by
  cases i with
  | none => exact h
  | some i => exact h

theorem Peripheral.unlinked_expandInside {path : NodePath} {p p' : Peripheral}
    (h : p.Every Header.Unlinked) (e : p.expandInside path = .ok p') :
    p'.Every Header.Unlinked := by
  obtain ⟨header, members⟩ := h
  unfold Peripheral.expandInside at e
  split at e
  · cases e
    exact ⟨header, members⟩
  · next ms hms =>
    obtain ⟨ms', hms', e⟩ := bind_eq_ok_iff.1 e
    obtain ⟨is, -, hms'⟩ := bind_eq_ok_iff.1 hms'
    cases e
    refine ⟨header, ?_⟩
    rw [Peripheral.memberList, hms] at members
    exact Member.everyAll_expandInsideAll (fun _ _ h => h) path is ms members hms'

theorem Device.unlinked_expand {d : Device} (h : d.Every Header.Unlinked) :
    d.expand.Yields (Device.Every Header.Unlinked) := by
  refine .bind_of_forall fun is => ?_
  refine .bind (Q := fun ps => ∀ p ∈ ps, p.Every Header.Unlinked) ?_ fun ps hps =>
    .bind_of_forall fun _ => .of_pure hps
  refine .of_ofExcept fun ps e p hp => ?_
  obtain ⟨_, hps, rfl⟩ := foldrM_cons_eq_ok_iff.1 e
  rw [List.append_nil] at hp
  obtain ⟨q, hq, hp⟩ := exists_mem_left hps hp
  obtain ⟨⟨p₀, is⟩, hp₀, hq⟩ := List.mem_flatMap.1 hq
  obtain ⟨i, -, rfl⟩ := List.mem_map.1 hq
  exact Peripheral.unlinked_expandInside
    (Peripheral.unlinked_place (h p₀ (List.of_mem_zip hp₀).1) i) hp

theorem Device.unlinked_exclude {d : Device} (h : d.Every Header.Unlinked) (names : List String) :
    (d.exclude names).Yields (Device.Every Header.Unlinked) :=
  .bind_of_forall fun _ => .of_pure fun p hp => h p (List.mem_of_mem_filter hp)

/-! ### Building -/

theorem unlinked_buildRegister (parent : NodePath) (e : Element) :
    (buildRegister parent e).Yields fun r => r.Unlinked := by
  unfold buildRegister
  refine .bind_of_forall fun name => .bind_of_forall fun path => .bind_of_forall fun offset => ?_
  refine .throw_or fun _ => ?_
  cases e.child? "fields" with
  | none =>
      exact .bind_of_forall fun _ => .bind_of_forall fun _ => .bind_of_forall fun _ => .of_pure rfl
  | some fields =>
      exact .bind_of_forall fun _ => .bind_of_forall fun _ => .bind_of_forall fun _ => .of_pure rfl

theorem unlinked_buildClusterHead (parent : NodePath) (e : Element) {c : Cluster}
    (h : buildClusterHead parent e = .ok c) : c.Unlinked := by
  unfold buildClusterHead at h
  obtain ⟨name, -, h⟩ := bind_eq_ok_iff.1 h
  obtain ⟨path, -, h⟩ := bind_eq_ok_iff.1 h
  split at h
  · cases h
  · obtain ⟨given, -, h⟩ := bind_eq_ok_iff.1 h
    obtain ⟨offset, -, h⟩ := bind_eq_ok_iff.1 h
    obtain ⟨props, -, h⟩ := bind_eq_ok_iff.1 h
    obtain ⟨dim, -, h⟩ := bind_eq_ok_iff.1 h
    cases h
    rfl

mutual

theorem unlinked_buildMember (parent : NodePath) :
    ∀ e : Element, (buildMember parent e).Yields fun found =>
      ∀ m, found = some m → m.Every Header.Unlinked
  | ⟨tag, line, attributes, text, children⟩ => by
      unfold buildMember
      split
      · refine .bind (unlinked_buildRegister parent _) fun r hr => .of_pure ?_
        rintro m ⟨⟩
        exact hr
      · refine .bind (.of_ofExcept fun _ => unlinked_buildClusterHead parent _) fun c hc => ?_
        refine .bind (unlinked_buildMembers _ [] children trivial) fun ms hms => .of_pure ?_
        rintro m ⟨⟩
        exact ⟨hc, hms⟩
      · exact .of_pure nofun

theorem unlinked_buildMembers (parent : NodePath) (built : List Member) :
    ∀ es : List Element, Member.EveryAll Header.Unlinked built →
      (buildMembers parent built es).Yields (Member.EveryAll Header.Unlinked)
  | [], h => .of_pure h
  | e :: es, h => by
      unfold buildMembers
      refine .bind (unlinked_buildMember parent e) fun found hfound => ?_
      cases found with
      | none => exact unlinked_buildMembers parent built es h
      | some m =>
          refine .throw_or fun _ => unlinked_buildMembers parent (built ++ [m]) es ?_
          refine Member.everyAll_iff.2 (List.forall_mem_append.2 ⟨Member.everyAll_iff.1 h, ?_⟩)
          exact List.forall_mem_singleton.2 (hfound m rfl)

end

theorem unlinked_buildPeripheral (parent : NodePath) (e : Element) :
    (buildPeripheral parent e).Yields (Peripheral.Every Header.Unlinked) := by
  unfold buildPeripheral
  refine .bind_of_forall fun name => .bind_of_forall fun path => .bind_of_forall fun base => ?_
  refine .throw_or fun _ => .bind_of_forall fun blocks => .bind_of_forall fun interrupts => ?_
  cases e.child? "registers" with
  | none =>
      refine .bind (Q := fun ms => ms = none) (.of_pure rfl) fun ms hms => ?_
      refine .bind_of_forall fun _ => .bind_of_forall fun _ => .of_pure ⟨rfl, ?_⟩
      subst hms
      trivial
  | some registers =>
      refine .bind (Q := fun ms => Member.EveryAll Header.Unlinked (ms.getD []))
        (.map (unlinked_buildMembers path [] registers.children trivial)) fun ms hms => ?_
      exact .bind_of_forall fun _ => .bind_of_forall fun _ => .of_pure ⟨rfl, hms⟩

theorem unlinked_buildDevice (root : Element) :
    (buildDevice root).Yields (Device.Every Header.Unlinked) :=
  forall_peripherals_buildDevice root (fun parent e _ => unlinked_buildPeripheral parent e)
    fun _ defaults => Peripheral.unlinked_withDefaults defaults

end RegisterMap.Draft
