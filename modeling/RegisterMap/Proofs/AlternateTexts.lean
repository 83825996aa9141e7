import RegisterMap.Proofs.Stages

/-!
# References to alternates

`Device.mapAlternates` changes the texts by which elements refer to their alternates. Nothing is
derived from these texts and nothing depends on them when derivations are followed, so derivation
carries them along as they are (`Device.result_resolveDerivations_mapAlternates`).
-/

namespace RegisterMap

/-! ### Chains of changed items -/

/-- The ending with the item changed to which a chain returns. -/
def ChainEnd.map {ε α β : Type} (g : α → β) : ChainEnd ε α → ChainEnd ε β
  | .finished => .finished
  | .broken e => .broken e
  | .returned again => .returned (g again)

namespace Chain

/-- The chain with its items changed. -/
def map {ε α β : Type} (g : α → β) (c : Chain ε α) : Chain ε β :=
  ⟨c.items.map g, c.ending.map g⟩

variable {ε α β κ : Type} [DecidableEq κ] (key : α → κ) (key' : β → κ)

/-- If changed items have the same keys and refer to each other alike, the chains are the same, apart
from the change. -/
theorem follow_map {next : α → Except ε (Option α)} {next' : β → Except ε (Option β)} (g : α → β)
    (keys : ∀ a, key' (g a) = key a) (refers : ∀ a, next' (g a) = Option.map g <$> next a)
    (unseen : List κ) (a : α) :
    follow key' next' unseen (g a) = (follow key next unseen a).map g := by
  fun_induction follow key next unseen a with
  | case1 unseen a e he =>
      rw [follow, refers, he]
      rfl
  | case2 unseen a hnone =>
      rw [follow, refers, hnone]
      rfl
  | case3 unseen a b hb hunseen rest ih =>
      rw [follow, refers, hb]
      dsimp only [Functor.map, Except.map, Option.map]
      rw [if_pos (by rwa [keys]), keys, ih]
      rfl
  | case4 unseen a b hb hseen =>
      rw [follow, refers, hb]
      dsimp only [Functor.map, Except.map, Option.map]
      rw [if_neg (by rwa [keys])]
      rfl

theorem loop_map (g : α → β) (keys : ∀ a, key' (g a) = key a) (items : List α) (again : α) :
    loop key' (items.map g) (g again) = (loop key items again).map g := by
  simp only [loop, List.dropWhile_map, Function.comp_def, keys, List.map_append, List.map_singleton]

end Chain

/-- What is made of changed items is what is made of the items, changed. -/
theorem mapM_map_natural {ε α β γ δ : Type} {make : α → Except ε γ} {make' : β → Except ε δ}
    {f : α → β} {g : γ → δ} (h : ∀ a, make' (f a) = g <$> make a) (as : List α) :
    (as.map f).mapM make' = List.map g <$> as.mapM make := by
  induction as with
  | nil => rfl
  | cons a as ih =>
      rw [List.map_cons, List.mapM_cons, List.mapM_cons, h, ih]
      cases make a with
      | error e => rfl
      | ok c => cases as.mapM make <;> rfl

theorem lookup_map_values {α β κ : Type} [BEq κ] (g : α → β) (es : List (κ × α)) (k : κ) :
    (es.map (Prod.map id g)).lookup k = (es.lookup k).map g := by
  induction es with
  | nil => rfl
  | cons e es ih =>
      rw [List.map_cons, List.lookup_cons, List.lookup_cons, ih]
      dsimp only [Prod.map, id]
      cases k == e.1 <;> rfl

namespace Draft

/-! ### Changed references -/

/-- The header with the reference to an alternate changed. -/
def Header.mapAlternate (f : String → String) (h : Header) : Header :=
  { h with alternate := h.alternate.map f }

/-- The register with the reference to an alternate changed. -/
def Register.mapAlternate (f : String → String) (r : Register) : Register :=
  { r with toHeader := r.toHeader.mapAlternate f }

/-- The cluster with the reference to an alternate changed. -/
def Cluster.mapAlternate (f : String → String) (c : Cluster) : Cluster :=
  { c with toHeader := c.toHeader.mapAlternate f }

mutual

/-- The member with the references to alternates changed, its own and those inside of it. -/
def Member.mapAlternates (f : String → String) : Member → Member
  | .register r => .register (r.mapAlternate f)
  | .cluster c ms => .cluster (c.mapAlternate f) (Member.mapAlternatesAll f ms)

/-- The members with all references to alternates changed. -/
def Member.mapAlternatesAll (f : String → String) : List Member → List Member
  | [] => []
  | m :: ms => Member.mapAlternates f m :: Member.mapAlternatesAll f ms

end

/-- The peripheral with the references to alternates changed, its own and those inside of it. -/
def Peripheral.mapAlternates (f : String → String) (p : Peripheral) : Peripheral :=
  { p with
    toHeader := p.toHeader.mapAlternate f
    members := p.members.map (Member.mapAlternatesAll f) }

/-- The device with all references to alternates changed. -/
def Device.mapAlternates (f : String → String) (d : Device) : Device :=
  { d with peripherals := d.peripherals.map (Peripheral.mapAlternates f) }

variable (f : String → String)

@[simp] theorem Header.mapAlternate_id (h : Header) : h.mapAlternate id = h := by
  simp [mapAlternate]

theorem Member.mapAlternatesAll_eq_map (ms : List Member) :
    mapAlternatesAll f ms = ms.map (mapAlternates f) := by
  induction ms with
  | nil => rfl
  | cons m ms ih => rw [mapAlternatesAll, ih, List.map_cons]

mutual

theorem Member.mapAlternates_id : ∀ m : Member, m.mapAlternates id = m
  | .register r => by rw [mapAlternates, Register.mapAlternate, Header.mapAlternate_id]
  | .cluster c ms => by
      rw [mapAlternates, Cluster.mapAlternate, Header.mapAlternate_id, mapAlternatesAll_id ms]

theorem Member.mapAlternatesAll_id : ∀ ms : List Member, mapAlternatesAll id ms = ms
  | [] => rfl
  | m :: ms => by rw [mapAlternatesAll, mapAlternates_id m, mapAlternatesAll_id ms]

end

theorem Peripheral.mapAlternates_id (p : Peripheral) : p.mapAlternates id = p := by
  rw [mapAlternates, Header.mapAlternate_id, funext Member.mapAlternatesAll_id, Option.map_id']

theorem Device.mapAlternates_id (d : Device) : d.mapAlternates id = d := by
  rw [mapAlternates, funext Peripheral.mapAlternates_id, List.map_id']

@[simp] theorem Member.name_mapAlternates (m : Member) : (m.mapAlternates f).name = m.name := by
  cases m <;> rfl

theorem Member.names_mapAlternatesAll (ms : List Member) :
    (mapAlternatesAll f ms).map name = ms.map name := by
  rw [mapAlternatesAll_eq_map, List.map_map]
  exact List.map_congr_left fun m _ => name_mapAlternates f m

@[simp] theorem Peripheral.name_mapAlternates (p : Peripheral) :
    (p.mapAlternates f).name = p.name := rfl

@[simp] theorem Peripheral.derivedFrom_mapAlternates (p : Peripheral) :
    (p.mapAlternates f).derivedFrom = p.derivedFrom := rfl

theorem Peripheral.memberList_mapAlternates (p : Peripheral) :
    (p.mapAlternates f).memberList = Member.mapAlternatesAll f p.memberList := by
  unfold memberList mapAlternates
  cases p.members <;> rfl

/-! ### Properties in effect -/

mutual

theorem Member.withDefaults_mapAlternates (defaults : RegisterProperties) : ∀ m : Member,
    (m.mapAlternates f).withDefaults defaults = (m.withDefaults defaults).mapAlternates f
  | .register _ => rfl
  | .cluster c ms =>
      congrArg (Member.cluster _) (withDefaultsAll_mapAlternates (c.props.inherit defaults) ms)

theorem Member.withDefaultsAll_mapAlternates (defaults : RegisterProperties) : ∀ ms : List Member,
    withDefaultsAll defaults (mapAlternatesAll f ms) =
      mapAlternatesAll f (withDefaultsAll defaults ms)
  | [] => rfl
  | m :: ms => congrArg₂ List.cons (withDefaults_mapAlternates defaults m)
      (withDefaultsAll_mapAlternates defaults ms)

end

theorem Peripheral.withDefaults_mapAlternates (defaults : RegisterProperties) (p : Peripheral) :
    (p.mapAlternates f).withDefaults defaults = (p.withDefaults defaults).mapAlternates f := by
  have hmembers := funext (Member.withDefaultsAll_mapAlternates f (p.props.inherit defaults))
  unfold withDefaults mapAlternates
  simp only [Option.map_map]
  exact congrArg (fun g => { p with
    toHeader := { p.toHeader.mapAlternate f with defaults }, members := p.members.map g }) hmembers

/-! ### Derived peripherals -/

/-- A peripheral with its number, and with the references to alternates changed. -/
def Numbered.mapAlternates (p : Numbered) : Numbered :=
  (p.1.mapAlternates f, p.2)

theorem zipIdx_mapAlternates (ps : List Peripheral) :
    (ps.map (Peripheral.mapAlternates f)).zipIdx = ps.zipIdx.map (Numbered.mapAlternates f) :=
  List.zipIdx_map ..

theorem splitDerived_mapAlternates (name : String) (ps : List Numbered) :
    splitDerived name (ps.map (Numbered.mapAlternates f)) =
      ((splitDerived name ps).1.map (Numbered.mapAlternates f),
        (splitDerived name ps).2.map (Numbered.mapAlternates f)) := by
  simp only [splitDerived, List.partition_eq_filter_filter, List.filter_map]
  rfl

theorem preorder_mapAlternates (waiting ready : List Numbered) :
    preorder (waiting.map (Numbered.mapAlternates f)) (ready.map (Numbered.mapAlternates f)) =
      ((preorder waiting ready).1.map (Numbered.mapAlternates f),
        (preorder waiting ready).2.map (Numbered.mapAlternates f)) := by
  induction waiting, ready using preorder.induct with
  | case1 waiting => simp [preorder]
  | case2 waiting p ready split ih =>
      have hsplit := splitDerived_mapAlternates f p.1.name waiting
      rw [List.map_cons, preorder, preorder]
      change (fun split => let rest := preorder split.2 (split.1 ++ _); (_ :: rest.1, rest.2))
        (splitDerived p.1.name _) = _
      rw [hsplit]
      dsimp only
      rw [← List.map_append, ih]
      rfl

theorem lastNamed?_mapAlternates (ps : List Numbered) (name : String) :
    lastNamed? (ps.map (Numbered.mapAlternates f)) name =
      (lastNamed? ps name).map (Numbered.mapAlternates f) := by
  unfold lastNamed?
  rw [← List.map_reverse, List.find?_map]
  rfl

theorem baseAmong_mapAlternates (ps : List Numbered) (p : Numbered) :
    baseAmong (ps.map (Numbered.mapAlternates f)) (p.mapAlternates f) =
      Option.map (Numbered.mapAlternates f) <$> baseAmong ps p := by
  have hgiven : (p.mapAlternates f).1.derivedFrom = p.1.derivedFrom := rfl
  unfold baseAmong
  rw [hgiven]
  cases p.1.derivedFrom with
  | none => rfl
  | some name =>
      dsimp only
      rw [lastNamed?_mapAlternates]
      cases lastNamed? ps name <;> rfl

theorem waitingError_mapAlternates (parent : NodePath) (first : Numbered) (others : List Numbered) :
    waitingError parent (first.mapAlternates f) (others.map (Numbered.mapAlternates f)) =
      waitingError parent first others := by
  have hunseen : (others.map (Numbered.mapAlternates f)).map (·.2) = others.map (·.2) := by
    rw [List.map_map]
    rfl
  have hpaths (ps : List Numbered) : (ps.map (Numbered.mapAlternates f)).map
      (fun p => parent.child p.1.name) = ps.map fun p => parent.child p.1.name := by
    rw [List.map_map]
    rfl
  have hchain := Chain.follow_map (·.2) (·.2) (Numbered.mapAlternates f)
    (fun _ => rfl) (baseAmong_mapAlternates f (first :: others)) (others.map (·.2)) first
  unfold waitingError
  dsimp only
  rw [hunseen, ← List.map_cons, hchain]
  generalize @Chain.follow Error Numbered Nat _ _ (baseAmong (first :: others)) _ first = chain
  obtain ⟨items, ending⟩ := chain
  cases ending with
  | finished => simp only [Chain.map, ChainEnd.map, hpaths]
  | broken e => rfl
  | returned again =>
      simp only [Chain.map, ChainEnd.map]
      rw [Chain.loop_map (·.2) (·.2) (Numbered.mapAlternates f) (fun _ => rfl),
        hpaths]

theorem derivationOrder_mapAlternates (parent : NodePath) (ps : List Peripheral) :
    derivationOrder parent (ps.map (Peripheral.mapAlternates f)) =
      List.map (Numbered.mapAlternates f) <$> derivationOrder parent ps := by
  unfold derivationOrder
  rw [zipIdx_mapAlternates, List.partition_eq_filter_filter, List.partition_eq_filter_filter,
    List.filter_map, List.filter_map]
  dsimp only [Function.comp_def, Numbered.mapAlternates, Peripheral.derivedFrom_mapAlternates]
  rw [preorder_mapAlternates]
  obtain ⟨order, waiting⟩ := preorder (ps.zipIdx.filter fun p => p.1.derivedFrom.isSome)
    (ps.zipIdx.filter fun p => !p.1.derivedFrom.isSome)
  cases waiting with
  | nil => rfl
  | cons first others => exact congrArg Except.error (waitingError_mapAlternates f parent first others)

theorem Peripheral.derive_mapAlternates (p base : Peripheral) :
    (p.mapAlternates f).derive (base.mapAlternates f) = (p.derive base).mapAlternates f := by
  have hmembers : (p.members.map (Member.mapAlternatesAll f)).or
      (base.members.map (Member.mapAlternatesAll f)) =
        (p.members.or base.members).map (Member.mapAlternatesAll f) := by
    cases p.members <;> rfl
  unfold derive mapAlternates
  dsimp only
  rw [hmembers]
  rfl

theorem derivePeripheral_mapAlternates (defaults : RegisterProperties) (ps : List Peripheral)
    (p : Numbered) : derivePeripheral defaults (ps.map (Peripheral.mapAlternates f))
        (p.mapAlternates f) =
      (derivePeripheral defaults ps p).map (Peripheral.mapAlternates f) := by
  have hbase : (p.mapAlternates f).1.derivedFrom.bind
      (lastNamed? (ps.map (Peripheral.mapAlternates f)).zipIdx) =
        (p.1.derivedFrom.bind (lastNamed? ps.zipIdx)).map (Numbered.mapAlternates f) := by
    change p.1.derivedFrom.bind _ = _
    rw [zipIdx_mapAlternates, funext (lastNamed?_mapAlternates f ps.zipIdx), Option.map_bind]
    rfl
  unfold derivePeripheral
  rw [hbase]
  cases p.1.derivedFrom.bind (lastNamed? ps.zipIdx) with
  | none => rfl
  | some base =>
      refine List.ext_getElem? fun i => ?_
      simp only [Option.map_some, List.getElem?_map, List.getElem?_modify, Numbered.mapAlternates]
      cases ps[i]? with
      | none => rfl
      | some q =>
          by_cases hi : p.2 = i
          · simp [hi, Peripheral.derive_mapAlternates, Peripheral.withDefaults_mapAlternates]
          · simp [hi]

namespace Device

variable (d : Device)

theorem checkBases_mapAlternates : (d.mapAlternates f).checkBases = d.checkBases := by
  have hany (name : String) : (d.mapAlternates f).peripherals.any (·.name == name) =
      d.peripherals.any (·.name == name) := List.any_map ..
  unfold checkBases
  simp only [hany]
  change (d.peripherals.map (Peripheral.mapAlternates f)).forM _ = _
  rw [List.forM_eq_forM, List.forM_map]
  rfl

theorem derivePeripherals_mapAlternates : (d.mapAlternates f).derivePeripherals =
    Prod.map (mapAlternates f) id <$> d.derivePeripherals := by
  have hfold (order : List Numbered) (ps : List Peripheral) :
      (order.map (Numbered.mapAlternates f)).foldl (derivePeripheral d.props)
          (ps.map (Peripheral.mapAlternates f)) =
        (order.foldl (derivePeripheral d.props) ps).map (Peripheral.mapAlternates f) := by
    induction order generalizing ps with
    | nil => rfl
    | cons p order ih =>
        rw [List.map_cons, List.foldl_cons, List.foldl_cons, derivePeripheral_mapAlternates, ih]
  have hderived (order : List Numbered) :
      (order.map (Numbered.mapAlternates f)).filter (·.1.derivedFrom.isSome) =
        (order.filter (·.1.derivedFrom.isSome)).map (Numbered.mapAlternates f) :=
    List.filter_map ..
  unfold derivePeripherals
  rw [checkBases_mapAlternates]
  change (do
    d.checkBases
    let order ← derivationOrder d.path (d.peripherals.map (Peripheral.mapAlternates f))
    _) = _
  rw [derivationOrder_mapAlternates]
  cases d.checkBases with
  | error e => rfl
  | ok _ =>
      cases derivationOrder d.path d.peripherals with
      | error e => rfl
      | ok order =>
          have hps := hfold (order.filter (·.1.derivedFrom.isSome)) d.peripherals
          have hlength : ((order.filter (·.1.derivedFrom.isSome)).map
              (Numbered.mapAlternates f)).length = (order.filter (·.1.derivedFrom.isSome)).length :=
            List.length_map _
          rw [← hderived] at hps hlength
          exact congrArg Except.ok
            (Prod.ext (congrArg (fun ps => { d with peripherals := ps }) hps) hlength)

end Device

/-! ### Derived registers -/

/-- The scope with all references to alternates changed. -/
def Scope.mapAlternates (s : Scope) : Scope :=
  { s with members := Member.mapAlternatesAll f s.members }

/-- The register in its place, with all references to alternates changed there. -/
def Site.mapAlternates (s : Site) : Site :=
  ⟨s.scope.mapAlternates f, s.index, s.register.mapAlternate f⟩

theorem Member.zipIdx_mapAlternatesAll (ms : List Member) :
    (mapAlternatesAll f ms).zipIdx = ms.zipIdx.map (Prod.map (mapAlternates f) id) := by
  rw [mapAlternatesAll_eq_map, List.zipIdx_map]

namespace Scope

theorem registers_mapAlternates (s : Scope) :
    (s.mapAlternates f).registers = s.registers.map (Site.mapAlternates f) := by
  unfold registers
  rw [List.map_filterMap]
  change (Member.mapAlternatesAll f s.members).zipIdx.filterMap _ = _
  rw [Member.zipIdx_mapAlternatesAll, List.filterMap_map]
  congr 1
  funext e
  obtain ⟨m, i⟩ := e
  cases m <;> rfl

theorem find?_mapAlternates (s : Scope) (names : List String) :
    (s.mapAlternates f).find? names = (s.find? names).map (Site.mapAlternates f) := by
  induction names generalizing s with
  | nil => rfl
  | cons name names ih =>
      have hfind : (s.mapAlternates f).members.zipIdx.find? (·.1.name == name) =
          (s.members.zipIdx.find? (·.1.name == name)).map
            (Prod.map (Member.mapAlternates f) id) := by
        change (Member.mapAlternatesAll f s.members).zipIdx.find? _ = _
        rw [Member.zipIdx_mapAlternatesAll, List.find?_map]
        simp only [Function.comp_def, Prod.map_fst, Member.name_mapAlternates]
      rw [find?, find?, hfind]
      cases s.members.zipIdx.find? (·.1.name == name) with
      | none => rfl
      | some e =>
          obtain ⟨m, i⟩ := e
          cases m with
          | register r => cases names <;> rfl
          | cluster c ms => exact ih ⟨s.position ++ [i], s.path.child c.name, ms⟩

end Scope

namespace Member

mutual

theorem scopes_mapAlternates (position : List Nat) (path : NodePath) : ∀ m : Member,
    (m.mapAlternates f).scopes position path =
      (m.scopes position path).map (Scope.mapAlternates f)
  | .register _ => rfl
  | .cluster _ ms => congrArg (Scope.mk position path (mapAlternatesAll f ms) :: ·)
      (scopesAll_mapAlternates position path 0 ms)

theorem scopesAll_mapAlternates (position : List Nat) (path : NodePath) (i : Nat) :
    ∀ ms : List Member, scopesAll position path i (mapAlternatesAll f ms) =
      (scopesAll position path i ms).map (Scope.mapAlternates f)
  | [] => rfl
  | m :: ms => by
      rw [mapAlternatesAll, scopesAll, scopesAll, List.map_append, name_mapAlternates,
        scopesAll_mapAlternates position path (i + 1) ms, scopes_mapAlternates _ _ m]

end

mutual

theorem mapRegisters_mapAlternates {g h : List Nat → Register → Register}
    (same : ∀ position r, h position (r.mapAlternate f) = (g position r).mapAlternate f)
    (position : List Nat) : ∀ m : Member, (m.mapAlternates f).mapRegisters h position =
      (m.mapRegisters g position).mapAlternates f
  | .register r => congrArg Member.register (same position r)
  | .cluster _ ms =>
      congrArg (Member.cluster _) (mapRegistersAll_mapAlternates same position 0 ms)

theorem mapRegistersAll_mapAlternates {g h : List Nat → Register → Register}
    (same : ∀ position r, h position (r.mapAlternate f) = (g position r).mapAlternate f)
    (position : List Nat) (i : Nat) : ∀ ms : List Member,
      mapRegistersAll h position i (mapAlternatesAll f ms) =
        mapAlternatesAll f (mapRegistersAll g position i ms)
  | [] => rfl
  | m :: ms => congrArg₂ List.cons (mapRegisters_mapAlternates same _ m)
      (mapRegistersAll_mapAlternates same position (i + 1) ms)

end

end Member

namespace Peripheral

variable (parent : NodePath) (i : Nat) (p : Peripheral)

theorem scope_mapAlternates :
    (p.mapAlternates f).scope parent i = (p.scope parent i).mapAlternates f := by
  unfold scope
  rw [memberList_mapAlternates]
  rfl

theorem scopes_mapAlternates :
    (p.mapAlternates f).scopes parent i = (p.scopes parent i).map (Scope.mapAlternates f) := by
  unfold scopes
  rw [scope_mapAlternates]
  exact congrArg _ (Member.scopesAll_mapAlternates f [i] (parent.child p.name) 0 p.memberList)

end Peripheral

namespace Device

variable (d : Device)

theorem sites_mapAlternates :
    (d.mapAlternates f).sites = d.sites.map (Site.mapAlternates f) := by
  have hscopes : (d.mapAlternates f).scopes = d.scopes.map (Scope.mapAlternates f) := by
    unfold scopes
    rw [List.map_flatMap]
    change (d.peripherals.map (Peripheral.mapAlternates f)).zipIdx.flatMap _ = _
    rw [zipIdx_mapAlternates, List.flatMap_map]
    exact congrArg (List.flatMap · _) (funext fun p => p.1.scopes_mapAlternates f d.path p.2)
  unfold sites
  rw [hscopes, List.flatMap_map, List.map_flatMap]
  exact congrArg (List.flatMap · _) (funext (Scope.registers_mapAlternates f))

theorem find?_mapAlternates (path : NodePath) :
    (d.mapAlternates f).find? path = (d.find? path).map (Site.mapAlternates f) := by
  unfold find?
  cases path.parts with
  | nil => rfl
  | cons name names =>
      have hfind : (d.peripherals.map (Peripheral.mapAlternates f)).zipIdx.find?
          (·.1.name == name) =
            (d.peripherals.zipIdx.find? (·.1.name == name)).map (Numbered.mapAlternates f) := by
        rw [zipIdx_mapAlternates, List.find?_map]
        rfl
      dsimp only
      change ((d.peripherals.map (Peripheral.mapAlternates f)).zipIdx.find? _).bind _ = _
      rw [hfind, Option.bind_map, Option.map_bind]
      congr 1
      funext p
      change ((p.1.mapAlternates f).scope d.path p.2).find? names = _
      rw [Peripheral.scope_mapAlternates, Scope.find?_mapAlternates]
      rfl

theorem mapRegisters_mapAlternates {g h : List Nat → Register → Register}
    (same : ∀ position r, h position (r.mapAlternate f) = (g position r).mapAlternate f) :
    (d.mapAlternates f).mapRegisters h = (d.mapRegisters g).mapAlternates f := by
  have hperipherals : (d.peripherals.map (Peripheral.mapAlternates f)).mapIdx (fun i p =>
      { p with members := p.members.map (Member.mapRegistersAll h [i] 0) }) =
        (d.peripherals.mapIdx fun i p =>
          { p with members := p.members.map (Member.mapRegistersAll g [i] 0) }).map
            (Peripheral.mapAlternates f) := by
    refine List.ext_getElem? fun i => ?_
    simp only [List.getElem?_map, List.getElem?_mapIdx, Option.map_map]
    cases d.peripherals[i]? with
    | none => rfl
    | some p =>
        have hmembers := funext (Member.mapRegistersAll_mapAlternates f same [i] 0)
        simp only [Option.map_some, Function.comp_def, Peripheral.mapAlternates, Option.map_map,
          hmembers]
  exact congrArg (fun ps => { d with peripherals := ps }) hperipherals

theorem baseOf_mapAlternates (s : Site) : (d.mapAlternates f).baseOf (s.mapAlternates f) =
    Option.map (Site.mapAlternates f) <$> d.baseOf s := by
  have hgiven : (s.mapAlternates f).register.derivedFrom = s.register.derivedFrom := rfl
  unfold baseOf
  rw [hgiven]
  cases s.register.derivedFrom with
  | none => rfl
  | some name =>
      have hsibling : (s.mapAlternates f).scope.registers.find? (·.register.name == name) =
          (s.scope.registers.find? (·.register.name == name)).map (Site.mapAlternates f) := by
        change (s.scope.mapAlternates f).registers.find? _ = _
        rw [Scope.registers_mapAlternates, List.find?_map]
        rfl
      have hpath : (NodePath.ofReference name).toOption.bind (d.mapAlternates f).find? =
          ((NodePath.ofReference name).toOption.bind d.find?).map (Site.mapAlternates f) := by
        rw [funext (find?_mapAlternates f d), Option.map_bind]
        rfl
      dsimp only
      rw [hsibling, hpath]
      cases s.scope.registers.find? (·.register.name == name) with
      | some base => rfl
      | none =>
          cases (NodePath.ofReference name).toOption.bind d.find? <;> rfl

end Device

theorem Register.deriveAlong_mapAlternate (r : Register) (bases : List Register) :
    (r.mapAlternate f).deriveAlong (bases.map (mapAlternate f)) =
      (r.deriveAlong bases).mapAlternate f := by
  induction bases generalizing r with
  | nil => rfl
  | cons base bases ih =>
      rw [List.map_cons, deriveAlong, deriveAlong, ih]
      rfl

namespace Device

variable (d : Device)

theorem chainOf_mapAlternates (s : Site) : (d.mapAlternates f).chainOf (s.mapAlternates f) =
    (d.chainOf s).map (Site.mapAlternates f) := by
  have hunseen : (d.mapAlternates f).sites.map Site.position = d.sites.map Site.position := by
    rw [sites_mapAlternates, List.map_map]
    rfl
  unfold chainOf
  rw [hunseen]
  exact Chain.follow_map _ _ (Site.mapAlternates f) (fun _ => rfl) (baseOf_mapAlternates f d) _ s

theorem deriveRegister_mapAlternates (s : Site) :
    (d.mapAlternates f).deriveRegister (s.mapAlternates f) =
      Register.mapAlternate f <$> d.deriveRegister s := by
  unfold deriveRegister
  rw [chainOf_mapAlternates]
  obtain ⟨items, ending⟩ := d.chainOf s
  cases ending with
  | finished =>
      have hbases : (items.map (Site.mapAlternates f)).tail.map (·.register) =
          (items.tail.map (·.register)).map (Register.mapAlternate f) := by
        rw [← List.map_tail, List.map_map, List.map_map]
        rfl
      have hderived := s.register.deriveAlong_mapAlternate f (items.tail.map (·.register))
      rw [← hbases] at hderived
      exact congrArg Except.ok hderived
  | broken e => rfl
  | returned again =>
      have hloop : Chain.loop Site.position (items.map (Site.mapAlternates f))
          (again.mapAlternates f) =
            (Chain.loop Site.position items again).map (Site.mapAlternates f) :=
        Chain.loop_map _ _ (Site.mapAlternates f) (fun _ => rfl) items again
      have hpaths := congrArg (List.map Site.path) hloop
      rw [List.map_map] at hpaths
      exact congrArg (fun paths => (Except.error (.cycle paths) : Except Error Register)) hpaths

theorem deriveRegisters_mapAlternates : (d.mapAlternates f).deriveRegisters =
    Prod.map (mapAlternates f) id <$> d.deriveRegisters := by
  have hderived : (d.mapAlternates f).sites.filter (·.register.derivedFrom.isSome) =
      (d.sites.filter (·.register.derivedFrom.isSome)).map (Site.mapAlternates f) := by
    rw [sites_mapAlternates]
    exact List.filter_map ..
  have hresolve (s : Site) : (do
      return ((s.mapAlternates f).position,
        ← (d.mapAlternates f).deriveRegister (s.mapAlternates f)) : Except Error _) =
        Prod.map id (Register.mapAlternate f) <$> (do
          return (s.position, ← d.deriveRegister s) : Except Error _) := by
    rw [deriveRegister_mapAlternates]
    cases d.deriveRegister s <;> rfl
  unfold deriveRegisters
  dsimp only
  rw [hderived, mapM_map_natural hresolve, List.length_map]
  cases (d.sites.filter (·.register.derivedFrom.isSome)).mapM fun s =>
      (do return (s.position, ← d.deriveRegister s) : Except Error _) with
  | error e => rfl
  | ok resolved =>
      have hdevice := d.mapRegisters_mapAlternates f (g := fun position r =>
          (resolved.lookup position).getD r) (h := fun position r =>
          ((resolved.map (Prod.map id (Register.mapAlternate f))).lookup position).getD r)
        fun position r => by
          rw [lookup_map_values]
          cases resolved.lookup position <;> rfl
      exact congrArg Except.ok (congrArg (·, _) hdevice)

/-- Deriving carries references to alternates along, whatever their texts are. -/
theorem result_resolveDerivations_mapAlternates : (d.mapAlternates f).resolveDerivations.result =
    mapAlternates f <$> d.resolveDerivations.result := by
  simp only [result_resolveDerivations, derivePeripherals_mapAlternates, Functor.map_map,
    bind_map_left, map_bind, Prod.map_fst, deriveRegisters_mapAlternates]

end Device

end Draft

end RegisterMap
