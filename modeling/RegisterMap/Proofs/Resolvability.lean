import RegisterMap.Proofs.Circles
import RegisterMap.Proofs.Failure
import RegisterMap.Proofs.PeripheralDerivation
import RegisterMap.Proofs.RegisterDerivation

/-!
# Which derivations can be resolved

The derivations of a device can be resolved if and only if every reference names something and no
references lead in a circle: first those between its peripherals, and then those between the
registers of the device in which the peripherals are derived (`Device.Resolvable`).

If they cannot, there is either a reference that names nothing or a circle, and what is reported is
one of these (`Device.Faulty`). A circle of peripherals is found from the first peripheral that is
left over by the order of derivation, a circle of registers from the first register whose chain does
not end; in either case references may have to be followed for a while before the circle is reached.
-/

namespace RegisterMap.Draft

open scoped List

namespace Device

/-- The first peripheral is derived from the second one. -/
def HasBase (d : Device) (p q : Peripheral) : Prop :=
  p ∈ d.peripherals ∧ q ∈ d.peripherals ∧ p.derivedFrom = some q.name

/-- Each reference from a register leads to a register. -/
def RegistersExist (d : Device) : Prop :=
  ∀ s ∈ d.sites, ∀ name, s.register.derivedFrom = some name → ∃ t, d.RefersTo s t

/-- No references from a register lead back to it. -/
def RegistersAcyclic (d : Device) : Prop :=
  ∀ s ∈ d.sites, ¬ Relation.TransGen d.RefersTo s s

/-- Every reference of the device names something, and none leads in a circle. References between
registers are those that are there when the peripherals are derived. -/
structure Resolvable (d : Device) : Prop where
  basesExist : d.BasesExist
  acyclic : d.Acyclic
  registers : ∃ middle n, d.derivePeripherals = .ok (middle, n) ∧
    middle.RegistersExist ∧ middle.RegistersAcyclic

/-- What an error says about a device whose derivations cannot be resolved. -/
inductive Faulty (d : Device) : Error → Prop
  /-- A peripheral is derived from nothing. -/
  | noBase {p : Peripheral} {name : String} (mem : p ∈ d.peripherals)
      (given : p.derivedFrom = some name) (missing : ∀ q ∈ d.peripherals, q.name ≠ name) :
      Faulty d (.missingReference (d.path.child p.name) name .derivation)
  /-- Peripherals are derived from each other in a circle. -/
  | peripherals {p : Peripheral} {others : List Peripheral} (circle : Circle d.HasBase p others) :
      Faulty d (.cycle ((p :: others ++ [p]).map (d.path.child ·.name)))
  /-- A register is derived from nothing. -/
  | noRegister {middle : Device} {n : Nat} (derived : d.derivePeripherals = .ok (middle, n))
      {s : Site} {name : String} (mem : s ∈ middle.sites)
      (given : s.register.derivedFrom = some name) (missing : ∀ t, ¬ middle.RefersTo s t) :
      Faulty d (.missingReference s.path name .derivation)
  /-- Registers are derived from each other in a circle. -/
  | registers {middle : Device} {n : Nat} (derived : d.derivePeripherals = .ok (middle, n))
      {s : Site} {others : List Site} (circle : Circle middle.RefersTo s others)
      (mem : ∀ t ∈ s :: others, t ∈ middle.sites) :
      Faulty d (.cycle ((s :: others ++ [s]).map Site.path))

end Device

/-! ### Peripherals -/

/-- In an order in which bases come first, the name of a base comes before the name of what is
derived from it. -/
theorem BasesFirst.idxOf_lt {done order : List Numbered} (h : BasesFirst done order)
    (names : ((done.reverse ++ order).map (·.1.name)).Nodup) {p : Numbered} (hp : p ∈ order)
    {base : String} (given : p.1.derivedFrom = some base) :
    ((done.reverse ++ order).map (·.1.name)).idxOf base <
      ((done.reverse ++ order).map (·.1.name)).idxOf p.1.name := by
  induction order generalizing done with
  | nil => cases hp
  | cons q order ih =>
      rcases List.mem_cons.1 hp with rfl | hp
      · obtain ⟨r, hr, hgiven⟩ := h.1.resolve_left (by simp [given])
        rw [given, Option.some.injEq] at hgiven
        rw [List.map_append, List.map_cons] at names ⊢
        have hbase : base ∈ done.reverse.map (·.1.name) := by
          rw [hgiven]
          exact List.mem_map_of_mem (List.mem_reverse.2 hr)
        have hnew : p.1.name ∉ done.reverse.map (·.1.name) := by
          intro hmem
          exact (List.nodup_append.1 names).2.2 _ hmem _ List.mem_cons_self rfl
        rw [List.idxOf_append_of_mem hbase, List.idxOf_append_of_notMem hnew, List.idxOf_cons_self]
        exact Nat.lt_add_right _ (List.idxOf_lt_length_of_mem hbase)
      · have hlist : done.reverse ++ q :: order = (q :: done).reverse ++ order := by simp
        rw [hlist] at names ⊢
        exact ih h.2 names hp

namespace Device

variable {d : Device}

/-- References do not lead in a circle if there is an order of all peripherals in which bases come
first. -/
theorem acyclic_of_basesFirst (names : (d.peripherals.map (·.name)).Nodup) {order : List Numbered}
    (hperm : order ~ d.peripherals.zipIdx) (first : BasesFirst [] order) : d.Acyclic := by
  have hnames : (order.map (·.1.name)).Nodup := by
    have hmap := hperm.map (·.1)
    rw [List.zipIdx_map_fst] at hmap
    have hnames := (hmap.map (·.name)).nodup_iff.2 names
    rwa [List.map_map] at hnames
  refine acyclic_of_rank (order.map (·.1.name)).idxOf fun p hp base hgiven => ?_
  obtain ⟨i, hi⟩ := List.mem_iff_getElem?.1 hp
  have hmem : (p, i) ∈ order := hperm.mem_iff.2 (List.mk_mem_zipIdx_iff_getElem?.2 hi)
  exact first.idxOf_lt hnames hmem hgiven

theorem checkBases_eq_error {e : Error} (h : d.checkBases = .error e) : d.Faulty e := by
  obtain ⟨p, hp, h⟩ := exists_mem_of_forM_eq_error h
  split at h
  · cases h
  · next name hgiven =>
    split at h
    · cases h
    · next hnone =>
      cases h
      refine .noBase hp hgiven fun q hq hname => hnone ?_
      exact List.any_eq_true.2 ⟨q, hq, beq_iff_eq.2 hname⟩

end Device

theorem lastNamed?_eq_some {ps : List Numbered} {name : String} {q : Numbered}
    (h : lastNamed? ps name = some q) : q ∈ ps ∧ q.1.name = name :=
  ⟨List.mem_reverse.1 (List.mem_of_find?_eq_some h), by simpa using List.find?_some h⟩

theorem baseAmong_eq_ok_some {ps : List Numbered} {p q : Numbered}
    (h : baseAmong ps p = .ok (some q)) : q ∈ ps ∧ p.1.derivedFrom = some q.1.name := by
  unfold baseAmong at h
  split at h
  · cases h
  · next name hgiven =>
    split at h
    · next base hbase =>
      cases h
      obtain ⟨hmem, hname⟩ := lastNamed?_eq_some hbase
      exact ⟨hmem, hgiven.trans (congrArg some hname.symm)⟩
    · cases h

/-- A peripheral that is derived from one of several peripherals has a base among them. -/
theorem exists_baseAmong {ps : List Numbered} {p : Numbered}
    (h : ∃ q ∈ ps, p.1.derivedFrom = some q.1.name) : ∃ q, baseAmong ps p = .ok (some q) := by
  obtain ⟨q, hq, hgiven⟩ := h
  have hsome : (lastNamed? ps q.1.name).isSome :=
    List.find?_isSome.2 ⟨q, List.mem_reverse.2 hq, beq_self_eq_true _⟩
  obtain ⟨base, hbase⟩ := Option.isSome_iff_exists.1 hsome
  exact ⟨base, by simp [baseAmong, hgiven, hbase]⟩

/-- Among peripherals that are all derived from one another, the references from the first one lead
into a circle, which is reported. -/
theorem exists_circle_of_waitingError (parent : NodePath) {first : Numbered}
    {others : List Numbered} (indices : ((first :: others).map (·.2)).Nodup)
    (bases : ∀ p ∈ first :: others, ∃ q ∈ first :: others, p.1.derivedFrom = some q.1.name) :
    ∃ p circle, Circle (fun x y => baseAmong (first :: others) x = .ok (some y)) p circle ∧
      (∀ q ∈ p :: circle, q ∈ first :: others) ∧
      waitingError parent first others =
        .cycle ((p :: circle ++ [p]).map (parent.child ·.1.name)) := by
  let next := baseAmong (first :: others)
  have domain : Chain.Domain (·.2) next (others.map (·.2)) first (· ∈ first :: others) :=
    { start := List.mem_cons_self
      closed := fun _ _ _ h => (baseAmong_eq_ok_some h).1
      keys := fun _ hp => List.mem_map_of_mem hp
      distinct := fun _ _ hp hq h => List.inj_on_of_nodup_map indices hp hq h
      nodup := indices }
  -- Every peripheral that is passed is derived from another one, so the chain returns.
  obtain ⟨before, last, hitems, hend⟩ := Chain.exists_last_items_follow
    (·.2) next (others.map (·.2)) first
  have hlast : last ∈ first :: others := domain.known_items last (by simp [hitems])
  obtain ⟨base, hbase⟩ := exists_baseAmong (bases last hlast)
  cases hending : (Chain.follow (·.2) next (others.map (·.2)) first).ending with
  | finished =>
      rw [hending] at hend
      cases hbase.symm.trans hend
  | broken e =>
      rw [hending] at hend
      cases hbase.symm.trans hend
  | returned again =>
      obtain ⟨circle, hloop, hcircle, hmem⟩ := domain.exists_circle hending
      refine ⟨again, circle, hcircle, hmem, ?_⟩
      rw [← hloop]
      unfold waitingError
      dsimp only
      rw [hending]

namespace Device

variable {d : Device}

/-- If there is no order although every reference names a peripheral, peripherals are derived from
each other in a circle, which is reported. -/
theorem exists_circle_of_derivationOrder (names : (d.peripherals.map (·.name)).Nodup)
    (exist : d.BasesExist) {e : Error} (h : derivationOrder d.path d.peripherals = .error e) :
    ∃ p others, Circle d.HasBase p others ∧
      e = .cycle ((p :: others ++ [p]).map (d.path.child ·.name)) := by
  obtain ⟨waiting, ready, hall, hderived, -, hcases⟩ := derivationOrder_cases d.path d.peripherals
  have hbases := exists_base_of_mem_left exist hall hderived
  rcases hcases with ⟨-, horder⟩ | ⟨first, others, hleft, horder⟩
  · rw [h] at horder
    cases horder
  · rw [h] at horder
    cases horder
    rw [hleft] at hbases
    have hperm := (preorder_perm waiting ready).trans hall
    rw [hleft] at hperm
    have hnumbered : ∀ p ∈ first :: others, d.peripherals[p.2]? = some p.1 := fun p hp =>
      List.mk_mem_zipIdx_iff_getElem?.1 (hperm.mem_iff.1 (List.mem_append_right _ hp))
    have hindices : ((first :: others).map (·.2)).Nodup := by
      have hnodup : (d.peripherals.zipIdx.map (·.2)).Nodup := by
        rw [List.zipIdx_map_snd]
        exact List.nodup_range' 1
      have hall := (hperm.map (·.2)).nodup_iff.2 hnodup
      rw [List.map_append] at hall
      exact hall.of_append_right
    obtain ⟨p, circle, hcircle, hmem, herror⟩ :=
      exists_circle_of_waitingError d.path hindices hbases
    have hcircle : Circle d.HasBase p.1 (circle.map (·.1)) := by
      refine hcircle.map (·.1) (fun x hx y hy hxy => ⟨?_, ?_, ?_⟩) fun x hx y hy hxy => ?_
      · exact List.mem_of_getElem? (hnumbered x (hmem x hx))
      · exact List.mem_of_getElem? (hnumbered y (hmem y hy))
      · exact (baseAmong_eq_ok_some hxy).2
      · have hname : x.1.name = y.1.name := congrArg (·.name) hxy
        exact Prod.ext hxy (index_eq_of_key_eq names (hnumbered x (hmem x hx))
          (hnumbered y (hmem y hy)) hname)
    have hpaths : (p :: circle ++ [p]).map (d.path.child ·.1.name) =
        (p.1 :: circle.map (·.1) ++ [p.1]).map (d.path.child ·.name) := by simp
    exact ⟨p.1, circle.map (·.1), hcircle, herror.trans (congrArg Error.cycle hpaths)⟩

theorem derivationOrder_eq_error (settled : d.Settled) (exist : d.BasesExist) {e : Error}
    (h : derivationOrder d.path d.peripherals = .error e) : d.Faulty e := by
  obtain ⟨p, others, hcircle, rfl⟩ := exists_circle_of_derivationOrder settled.names exist h
  exact .peripherals hcircle

/-- Peripherals can be derived if and only if every reference names a peripheral and no references
lead in a circle. -/
theorem exists_derivePeripherals_iff (settled : d.Settled) :
    (∃ middle n, d.derivePeripherals = .ok (middle, n)) ↔ d.BasesExist ∧ d.Acyclic := by
  constructor
  · rintro ⟨middle, n, h⟩
    obtain ⟨⟨⟩, hbases, h⟩ := bind_eq_ok_iff.1 h
    obtain ⟨order, horder, -⟩ := bind_eq_ok_iff.1 h
    obtain ⟨hperm, hfirst⟩ := derivationOrder_eq_ok horder
    exact ⟨checkBases_eq_ok_iff.1 hbases, acyclic_of_basesFirst settled.names hperm hfirst⟩
  · rintro ⟨exist, acyclic⟩
    obtain ⟨ps, n, h, -⟩ := d.exists_derivePeripherals settled exist acyclic
    exact ⟨_, n, h⟩

/-- If the peripherals can be derived, each of them is derived along its chain. -/
theorem derivePeripherals_eq_ok (settled : d.Settled) {middle : Device} {n : Nat}
    (h : d.derivePeripherals = .ok (middle, n)) :
    ∃ ps, middle = { d with peripherals := ps } ∧
      List.Forall₂ d.DerivesTo d.peripherals ps := by
  obtain ⟨exist, acyclic⟩ := (exists_derivePeripherals_iff settled).1 ⟨middle, n, h⟩
  obtain ⟨ps, m, hresult, hlength, hall⟩ := d.exists_derivePeripherals settled exist acyclic
  rw [h] at hresult
  cases hresult
  exact ⟨ps, rfl, forall₂_of_getElem? hlength.symm hall⟩

theorem derivePeripherals_eq_error (settled : d.Settled) {e : Error}
    (h : d.derivePeripherals = .error e) : d.Faulty e := by
  rcases bind_eq_error_iff.1 h with h | ⟨⟨⟩, hbases, h⟩
  · exact checkBases_eq_error h
  · rcases bind_eq_error_iff.1 h with h | ⟨order, -, h⟩
    · exact derivationOrder_eq_error settled (checkBases_eq_ok_iff.1 hbases) h
    · cases h

/-! ### Registers -/

variable {s t : Site}

theorem baseOf_eq_error_iff {e : Error} :
    d.baseOf s = .error e ↔ ∃ name, s.register.derivedFrom = some name ∧
      (∀ t, ¬ d.RefersTo s t) ∧ e = .missingReference s.path name .derivation := by
  simp only [← baseOf_eq_ok_some_iff]
  unfold baseOf
  cases s.register.derivedFrom with
  | none => simp
  | some name =>
      dsimp only
      split
      · simp
      · simp [eq_comm]

/-- Registers of the device that refer to nothing but each other are the ones that may be met in
following references from one of them. -/
theorem domain_chainOf {Known : Site → Prop} (hs : Known s) (sites : ∀ t, Known t → t ∈ d.sites)
    (closed : ∀ t u, Known t → d.RefersTo t u → Known u) :
    Chain.Domain Site.position d.baseOf ((d.sites.map Site.position).erase s.position) s Known := by
  have hperm : d.sites.map Site.position ~
      s.position :: (d.sites.map Site.position).erase s.position :=
    List.perm_cons_erase (List.mem_map_of_mem (sites s hs))
  refine ⟨hs, fun t u ht h => closed t u ht (baseOf_eq_ok_some_iff.1 h), fun t ht => ?_,
    fun t u ht hu h => ?_, hperm.nodup_iff.1 d.nodup_position_sites⟩
  · exact hperm.mem_iff.1 (List.mem_map_of_mem (sites t ht))
  · have ht := mem_sites_iff.1 (sites t ht)
    rw [h, mem_sites_iff.1 (sites u hu)] at ht
    exact (Option.some.inj ht).symm

/-- A register that cannot be derived leads to a reference that names no register, or into a
circle. -/
theorem deriveRegister_eq_error (Known : Site → Prop) (hs : Known s)
    (sites : ∀ t, Known t → t ∈ d.sites) (closed : ∀ t u, Known t → d.RefersTo t u → Known u)
    {e : Error} (h : d.deriveRegister s = .error e) :
    (∃ t name, Known t ∧ t.register.derivedFrom = some name ∧ (∀ u, ¬ d.RefersTo t u) ∧
        e = .missingReference t.path name .derivation) ∨
      ∃ t others, (∀ u ∈ t :: others, Known u) ∧ Circle d.RefersTo t others ∧
        e = .cycle ((t :: others ++ [t]).map Site.path) := by
  have domain := domain_chainOf hs sites closed
  unfold deriveRegister at h
  dsimp only at h
  split at h
  · cases h
  · next e' hbroken =>
    cases h
    obtain ⟨before, last, hitems, hend⟩ := Chain.exists_last_items_follow Site.position d.baseOf
      ((d.sites.map Site.position).erase s.position) s
    change (Chain.follow Site.position d.baseOf _ s).ending = _ at hbroken
    rw [hbroken] at hend
    have hlast : Known last := domain.known_items last (by simp [hitems])
    obtain ⟨name, hgiven, hnone, rfl⟩ := baseOf_eq_error_iff.1 hend
    exact .inl ⟨last, name, hlast, hgiven, hnone, rfl⟩
  · next again hreturned =>
    cases h
    obtain ⟨others, hloop, hcircle, hmem⟩ := domain.exists_circle hreturned
    refine .inr ⟨again, others, hmem, ?_, by rw [← hloop]; rfl⟩
    simpa only [baseOf_eq_ok_some_iff] using hcircle

theorem RefersTo.unique {u : Site} (h : d.RefersTo s t) (h' : d.RefersTo s u) : t = u := by
  rw [← baseOf_eq_ok_some_iff] at h h'
  rw [h] at h'
  cases h'
  rfl

/-- Going along references from a register goes along its chain. -/
theorem DerivesAlong.of_transGen {ts : List Site} (h : d.DerivesAlong s ts)
    (reach : Relation.TransGen d.RefersTo s t) :
    ∃ us, d.DerivesAlong t us ∧ us.length < ts.length := by
  have step {s t : Site} {ts : List Site} (h : d.DerivesAlong s ts) (hrefers : d.RefersTo s t) :
      ∃ us, d.DerivesAlong t us ∧ us.length < ts.length := by
    cases h with
    | last own =>
        rw [← baseOf_eq_ok_some_iff, baseOf_eq_ok_none_iff.2 own] at hrefers
        cases hrefers
    | step first rest =>
        obtain rfl := first.unique hrefers
        exact ⟨_, rest, Nat.lt_succ_self _⟩
  induction reach with
  | single hrefers => exact step h hrefers
  | tail _ hrefers ih =>
      obtain ⟨us, hus, hlt⟩ := ih
      obtain ⟨vs, hvs, hlt'⟩ := step hus hrefers
      exact ⟨vs, hvs, Nat.lt_trans hlt' hlt⟩

/-- A register with a chain that ends is on no circle. -/
theorem DerivesAlong.not_transGen_self {ts : List Site} (h : d.DerivesAlong s ts) :
    ¬ Relation.TransGen d.RefersTo s s := by
  intro reach
  obtain ⟨us, hus, hlt⟩ := h.of_transGen reach
  rw [h.unique hus] at hlt
  exact Nat.lt_irrefl _ hlt

/-- A register can be derived if and only if it has a chain, and it is derived along this chain. -/
theorem deriveRegister_eq_ok_iff (hs : s ∈ d.sites) {r : Register} :
    d.deriveRegister s = .ok r ↔
      ∃ bases, d.DerivesAlong s bases ∧ r = s.register.deriveAlong (bases.map (·.register)) := by
  refine ⟨exists_chain_of_deriveRegister, ?_⟩
  rintro ⟨bases, hchain, rfl⟩
  cases h : d.deriveRegister s with
  | ok r =>
      obtain ⟨bases', hchain', rfl⟩ := exists_chain_of_deriveRegister h
      rw [hchain.unique hchain']
  | error e =>
      -- Everything to which the references lead has a chain, too.
      have closed : ∀ t u, (t ∈ d.sites ∧ ∃ ts, d.DerivesAlong t ts) → d.RefersTo t u →
          u ∈ d.sites ∧ ∃ us, d.DerivesAlong u us := by
        rintro t u ⟨ht, ts, hts⟩ hrefers
        obtain ⟨us, hus, -⟩ := hts.of_transGen (.single hrefers)
        exact ⟨hrefers.mem_sites ht, us, hus⟩
      rcases deriveRegister_eq_error (fun t => t ∈ d.sites ∧ ∃ ts, d.DerivesAlong t ts)
        ⟨hs, bases, hchain⟩ (fun t ht => ht.1) closed h with
        ⟨t, name, ⟨-, ts, hts⟩, hgiven, hnone, -⟩ | ⟨t, others, hknown, hcircle, -⟩
      · cases hts with
        | last own =>
            rw [own] at hgiven
            cases hgiven
        | step first _ => exact absurd first (hnone _)
      · obtain ⟨-, ts, hts⟩ := hknown t List.mem_cons_self
        exact absurd hcircle.transGen hts.not_transGen_self

theorem exists_deriveRegisters (h : ∀ s ∈ d.sites, ∃ r, d.deriveRegister s = .ok r) :
    ∃ d' n, d.deriveRegisters = .ok (d', n) := by
  cases hresult : d.deriveRegisters with
  | ok result => exact ⟨result.1, result.2, rfl⟩
  | error e =>
      rcases bind_eq_error_iff.1 hresult with hstep | ⟨_, -, hstep⟩
      · obtain ⟨s, hs, hstep⟩ := exists_mem_of_mapM_eq_error hstep
        obtain ⟨r, hr⟩ := h s (List.mem_of_mem_filter hs)
        rw [hr] at hstep
        cases hstep
      · cases hstep

theorem deriveRegisters_eq_error {n : Nat} {middle : Device} {e : Error}
    (derived : d.derivePeripherals = .ok (middle, n)) (h : middle.deriveRegisters = .error e) :
    d.Faulty e := by
  rcases bind_eq_error_iff.1 h with h | ⟨_, -, h⟩
  · obtain ⟨s, hs, h⟩ := exists_mem_of_mapM_eq_error h
    rcases bind_eq_error_iff.1 h with h | ⟨_, -, h⟩
    · rcases deriveRegister_eq_error (· ∈ middle.sites) (List.mem_of_mem_filter hs)
        (fun _ ht => ht) (fun _ _ ht hrefers => hrefers.mem_sites ht) h with
        ⟨t, name, ht, hgiven, hnone, rfl⟩ | ⟨t, others, hmem, hcircle, rfl⟩
      · exact .noRegister derived ht hgiven hnone
      · exact .registers derived hcircle hmem
    · cases h
  · cases h

/-- Registers can be derived if and only if every reference leads to a register and no references
lead in a circle. -/
theorem exists_deriveRegisters_iff :
    (∃ d' n, d.deriveRegisters = .ok (d', n)) ↔ d.RegistersExist ∧ d.RegistersAcyclic := by
  constructor
  · rintro ⟨d', n, h⟩
    obtain ⟨f, -, hall⟩ := deriveRegisters_eq_ok h
    have chains : ∀ s ∈ d.sites, ∃ bases, d.DerivesAlong s bases := fun s hs =>
      have ⟨bases, hchain, _⟩ := exists_chain_of_deriveRegister (hall s hs)
      ⟨bases, hchain⟩
    refine ⟨fun s hs name hgiven => ?_, fun s hs => ?_⟩
    · obtain ⟨bases, hchain⟩ := chains s hs
      cases hchain with
      | last own =>
          rw [own] at hgiven
          cases hgiven
      | step first _ => exact ⟨_, first⟩
    · obtain ⟨bases, hchain⟩ := chains s hs
      exact hchain.not_transGen_self
  · rintro ⟨exist, acyclic⟩
    refine exists_deriveRegisters fun s hs => ?_
    cases h : d.deriveRegister s with
    | ok r => exact ⟨r, rfl⟩
    | error e =>
        rcases deriveRegister_eq_error (· ∈ d.sites) hs (fun _ ht => ht)
          (fun _ _ ht hrefers => hrefers.mem_sites ht) h with
          ⟨t, name, ht, hgiven, hnone, -⟩ | ⟨t, others, hmem, hcircle, -⟩
        · obtain ⟨u, hu⟩ := exist t ht name hgiven
          exact absurd hu (hnone u)
        · exact absurd hcircle.transGen (acyclic t (hmem t List.mem_cons_self))

end Device

/-! ### Devices -/

theorem Device.exists_resolveDerivations_iff {d : Device} (settled : d.Settled) :
    (∃ d', d.resolveDerivations.result = .ok d') ↔ d.Resolvable := by
  constructor
  · rintro ⟨d', h⟩
    obtain ⟨⟨middle, n⟩, hmiddle, h⟩ := Logged.bind_eq_ok_iff.1 h
    obtain ⟨⟨d₂, m⟩, hderived, -⟩ := Logged.bind_eq_ok_iff.1 h
    obtain ⟨exist, acyclic⟩ := (exists_derivePeripherals_iff settled).1 ⟨middle, n, hmiddle⟩
    exact ⟨exist, acyclic, middle, n, hmiddle, exists_deriveRegisters_iff.1 ⟨d₂, m, hderived⟩⟩
  · rintro ⟨-, -, middle, n, hmiddle, hregisters⟩
    obtain ⟨d₂, m, hderived⟩ := exists_deriveRegisters_iff.2 hregisters
    refine ⟨d₂, ?_⟩
    rw [resolveDerivations, Logged.bind_eq_ok_iff]
    refine ⟨_, hmiddle, ?_⟩
    rw [Logged.bind_eq_ok_iff]
    exact ⟨_, hderived, rfl⟩

/-- In a device that is resolved, each peripheral is derived along its chain, and then each register
is replaced by what it is derived to. -/
theorem Device.resolveDerivations_eq_ok {d d' : Device} (settled : d.Settled)
    (h : d.resolveDerivations.result = .ok d') :
    ∃ (middle : Device) (f : List Nat → Register → Register),
      middle = { d with peripherals := middle.peripherals } ∧
      List.Forall₂ d.DerivesTo d.peripherals middle.peripherals ∧
      (∀ s ∈ middle.sites, middle.deriveRegister s = .ok (f s.position s.register)) ∧
      d' = middle.mapRegisters f := by
  obtain ⟨⟨middle, n⟩, hmiddle, h⟩ := Logged.bind_eq_ok_iff.1 h
  obtain ⟨⟨_, m⟩, hregisters, h⟩ := Logged.bind_eq_ok_iff.1 h
  cases h
  obtain ⟨ps, rfl, hps⟩ := derivePeripherals_eq_ok settled hmiddle
  obtain ⟨f, rfl, hf⟩ := deriveRegisters_eq_ok hregisters
  exact ⟨_, f, rfl, hps, hf, rfl⟩

theorem Device.resolveDerivations_eq_error {d : Device} (settled : d.Settled) {e : Error}
    (h : d.resolveDerivations.result = .error e) : d.Faulty e := by
  rcases Logged.bind_eq_error_iff.1 h with h | ⟨⟨middle, n⟩, hmiddle, h⟩
  · exact derivePeripherals_eq_error settled h
  · rcases Logged.bind_eq_error_iff.1 h with h | ⟨_, -, h⟩
    · exact deriveRegisters_eq_error hmiddle h
    · rw [Logged.result_bind] at h
      cases h

/-- Exactly the devices are resolved in which every reference names something and no references
lead in a circle. For any other device, a reference that names nothing or a circle of references is
reported, and there is what is reported. -/
theorem resolveDerivations_decides {root : Element} {d : Device}
    (built : (buildDevice root).result = .ok d) :
    ((∃ d', d.resolveDerivations.result = .ok d') ↔ d.Resolvable) ∧
      ∀ e, d.resolveDerivations.result = .error e → d.Faulty e := by
  have settled := settled_buildDevice root d built
  exact ⟨Device.exists_resolveDerivations_iff settled,
    fun _ => Device.resolveDerivations_eq_error settled⟩

open Element in
/-- A peripheral that is derived from one of two peripherals that are derived from each other. -/
def circleRoot : Element :=
  node "device" [leaf "name" "D", node "peripherals" [
    { node "peripheral" [leaf "name" "P"] with attributes := [("derivedFrom", "Q")] },
    { node "peripheral" [leaf "name" "Q"] with attributes := [("derivedFrom", "R")] },
    { node "peripheral" [leaf "name" "R"] with attributes := [("derivedFrom", "Q")] }]]

/-- The circle that is reported does not contain the peripheral from which it was found. -/
theorem resolveDerivations_decides_circle :
    ∃ d, (buildDevice circleRoot).result = .ok d ∧ ¬ d.Resolvable ∧
      d.Faulty (.cycle [⟨["D", "Q"]⟩, ⟨["D", "R"]⟩, ⟨["D", "Q"]⟩]) := by
  let isCircle : Except Error Device → Bool
    | .error (.cycle paths) => paths = [⟨["D", "Q"]⟩, ⟨["D", "R"]⟩, ⟨["D", "Q"]⟩]
    | _ => false
  have hbuilt : (buildDevice circleRoot).result.toOption.any fun d =>
      isCircle d.resolveDerivations.result := by
    decide +kernel
  obtain ⟨d, hd, h⟩ := exists_ok_of_any hbuilt
  obtain ⟨hiff, hfaulty⟩ := resolveDerivations_decides hd
  cases hresult : d.resolveDerivations.result with
  | ok d' =>
      rw [hresult] at h
      cases h
  | error e =>
      rw [hresult] at h
      cases e with
      | cycle paths =>
          obtain rfl : paths = _ := of_decide_eq_true h
          refine ⟨d, hd, fun hresolvable => ?_, hfaulty _ hresult⟩
          obtain ⟨d', hd'⟩ := hiff.2 hresolvable
          rw [hresult] at hd'
          cases hd'
      | _ => cases h

end RegisterMap.Draft
